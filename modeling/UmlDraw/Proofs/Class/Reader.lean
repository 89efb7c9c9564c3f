/-
# What the lines of a class diagram do

A line of a class diagram adds entities and links at the end of their lists.  It may change what is
known of an entity, but it takes no entity and no link away, and a fault stays.

The lines of a text are told as changes of the table of entities; so one sees what is kept of an
entity that is declared again.

The main statements are

* `Reader.grows_step`, for a line, and `Diagram.grows_read`, for a text with more lines behind it;
* `Reader.entities_step`: the entities after a line;
* `Diagram.ownCodes_read`: every entity stands under its own code;
* `Edit.get?_foldl_apply`: the record of an entity after a run of changes;
* `Reader.keeps_iff_repeatedBy`: nothing that was recorded of an entity is lost if and only if its
  last declaration says it again;
* `Reader.keeps_of_created`: of an entity that was only named so far, nothing is lost.
-/
import UmlDraw.Class.Drawing
import UmlDraw.Class.Reader
import UmlDraw.Proofs.Data.Keyed
import UmlDraw.Proofs.Data.Outcome
import UmlDraw.Proofs.Text.Lines

namespace UmlDraw
namespace Class
namespace Reader

/-- The second reader has the entities and the links of the first one, in their order, and perhaps
further ones behind them. -/
structure Grows (r r' : Reader) : Prop where
  entities : r.entities.keys <+: r'.entities.keys
  links : r.links <+: r'.links
  fault : r'.fault = none → r.fault = none

variable {r r' r'' : Reader}

lemma Grows.refl (r : Reader) : r.Grows r :=
  ⟨List.prefix_rfl, List.prefix_rfl, id⟩

lemma Grows.trans (h : r.Grows r') (h' : r'.Grows r'') : r.Grows r'' :=
  ⟨h.entities.trans h'.entities, h.links.trans h'.links, fun hf => h.fault (h'.fault hf)⟩

lemma Grows.of_eq (hentities : r'.entities = r.entities) (hlinks : r'.links = r.links)
    (hfault : r'.fault = r.fault) : r.Grows r' := by
  constructor
  · exact hentities ▸ List.prefix_rfl
  · exact hlinks ▸ List.prefix_rfl
  · exact hfault ▸ id

lemma grows_create (r : Reader) (code : String) : r.Grows (r.create code) := by
  unfold create
  split
  · exact .refl r
  · exact ⟨Keyed.keys_prefix_insert _ _ _, List.prefix_rfl, id⟩

lemma grows_mention (r : Reader) (code : String) : r.Grows (r.mention code) := by
  unfold mention
  split
  · exact .refl r
  · exact grows_create r code

lemma grows_declare (r : Reader) (e : Entity) : r.Grows (r.declare e) :=
  ⟨Keyed.keys_prefix_insert _ _ _, List.prefix_rfl, id⟩

lemma grows_closeBody (r : Reader) (e : Entity) : r.Grows (r.closeBody e) := by
  have hclosed : r.Grows { r with body := none } := .of_eq rfl rfl rfl
  exact hclosed.trans (grows_declare _ e)

lemma grows_mentionNote (r : Reader) (n : Note) : r.Grows (r.mentionNote n) := by
  unfold mentionNote
  split
  · exact grows_mention r _
  · exact .refl r
  · exact .of_eq rfl rfl rfl

lemma grows_concat (r : Reader) (l : Link) : r.Grows { r with links := r.links ++ [l] } :=
  ⟨List.prefix_rfl, List.prefix_append _ _, id⟩

lemma grows_addLink (r : Reader) (l : Link) : r.Grows (r.addLink l) :=
  ((grows_mention r _).trans (grows_mention _ _)).trans (grows_concat _ _)

lemma grows_addDeclaration (r : Reader) (e : Entity) (hasBody : Bool) :
    r.Grows (r.addDeclaration e hasBody) := by
  have hmention : r.Grows ((e.parents ++ e.interfaces).foldl mention r) :=
    List.foldlRecOn _ mention (.refl r) fun r' h code _ => h.trans (grows_mention r' code)
  unfold addDeclaration
  dsimp only
  split
  · exact hmention.trans (.of_eq rfl rfl rfl)
  · exact hmention.trans (grows_declare _ e)

lemma grows_apply (r : Reader) (l : Line) : r.Grows (r.apply l) := by
  cases l with
  | title | display | nothing | remove | together | package | blockEnd => exact .of_eq rfl rfl rfl
  | note n =>
    cases n with
    | complete n => exact (grows_mentionNote r _).trans (.of_eq rfl rfl rfl)
    | start n => exact (grows_mentionNote r _).trans (.of_eq rfl rfl rfl)
  | declare e hasBody => exact grows_addDeclaration r e hasBody
  | link l => exact grows_addLink r l
  | member code m =>
    have hmodify : (r.create code).Grows { r.create code with
        entities := (r.create code).entities.modify code fun e =>
          { e with members := e.members ++ [.member m] } } := by
      refine ⟨?_, List.prefix_rfl, id⟩
      exact Keyed.keys_prefix_modify _ _ _
    exact (grows_create r code).trans hmodify
  | faulty k =>
    refine ⟨List.prefix_rfl, List.prefix_rfl, fun h => ?_⟩
    exact (Option.or_eq_none_iff.1 h).1

lemma grows_memberLine (r : Reader) (e : Entity) (s : List Char) : r.Grows (r.memberLine e s) := by
  unfold memberLine
  split
  · exact grows_closeBody r e
  · exact .of_eq rfl rfl rfl

lemma grows_entryLine (r : Reader) (e : Entity) (s : List Char) : r.Grows (r.entryLine e s) := by
  unfold entryLine
  split
  · exact grows_closeBody r e
  · split
    · exact .refl r
    · dsimp only
      split
      · exact .of_eq rfl rfl rfl
      · next key target _ =>
        have hlink : (r.mention target).Grows { r.mention target with
            links := r.links ++ [rowLink e.code target] } := by
          have hlinks : (r.mention target).links = r.links := by
            unfold mention create
            split
            · rfl
            · split <;> rfl
          rw [← hlinks]
          exact grows_concat _ _
        exact ((grows_mention r target).trans hlink).trans (.of_eq rfl rfl rfl)

lemma grows_documentLine (r : Reader) (e : Entity) (depth : Int) (lines : List (List Char))
    (s : List Char) : r.Grows (r.documentLine e depth lines s) := by
  unfold documentLine
  dsimp only
  split
  · exact grows_closeBody r _
  · exact .of_eq rfl rfl rfl

/-- What a line adds, wherever it stands. -/
theorem grows_step (r : Reader) (line : SourceLine) : r.Grows (r.step line) := by
  unfold step
  split
  · split <;> exact .of_eq rfl rfl rfl
  · split
    · exact .refl r
    · exact grows_memberLine r _ _
  · split
    · exact .refl r
    · exact grows_entryLine r _ _
  · split
    · exact .refl r
    · exact grows_documentLine r _ _ _ _
  · split
    · exact .refl r
    · unfold readLine
      split
      · exact grows_apply r _
      · exact .refl r

/-- What lines add. -/
theorem grows_foldl (r : Reader) (lines : List SourceLine) : r.Grows (lines.foldl step r) :=
  List.foldlRecOn lines step (.refl r) fun r' h line _ => h.trans (grows_step r' line)

end Reader

/-- A text that can be read with more lines behind it can be read without them; they only add
entities and links. -/
theorem Diagram.grows_read {t : String} (ht : '\r' ∉ t.toList) (u : String) {d' : Diagram}
    (h : read (t ++ "\n" ++ u) = .ok d') :
    ∃ d, read t = .ok d ∧ d.entities.keys <+: d'.entities.keys ∧ d.links <+: d'.links := by
  obtain ⟨rest, hlines⟩ := Source.lines_prefix ht u
  rw [read, ← hlines, List.foldl_append] at h
  obtain ⟨hfault, rfl⟩ := Fault.check_eq_ok_iff.1 h
  have hgrows := Reader.grows_foldl ((Source.lines t).foldl Reader.step {}) rest
  exact ⟨_, Fault.check_eq_ok_iff.2 ⟨hgrows.fault hfault, rfl⟩, hgrows.entities, hgrows.links⟩

end Class

/-! ## Lines as changes

A line makes entities for the codes that it names, declares an entity, or adds a member to one.
These *edits* can be told from the line and from what is open, and nothing else changes the table
of entities.  A declaration takes the place of the entity with its code. -/

namespace Class

/-- A change of the table of entities. -/
inductive Edit where
  /-- Makes an entity, if there is none with the code. -/
  | create (code : String)
  /-- Puts an entity in the place of the one with its code; the path is that of the innermost open
  package. -/
  | declare (path? : Option String) (e : Entity)
  /-- Adds a member to an entity. -/
  | member (code : String) (m : Member)

namespace Edit

/-- The entity that a declaration leaves. -/
def declared (path? : Option String) (old? : Option Entity) (e : Entity) : Entity :=
  { e with
    members := (old?.map Entity.members).getD [] ++ e.members
    packagePath := path?.or e.packagePath }

/-- The table of entities after a change. -/
def apply (t : Keyed Entity) : Edit → Keyed Entity
  | create code => if t.contains code then t else t.insert code { code := code, display := code }
  | declare path? e => t.insert e.code (declared path? (t.get? e.code) e)
  | member code m => t.modify code fun e => { e with members := e.members ++ [.member m] }

end Edit

/-! ### Entities and their codes -/

/-- Every entity of a table stands under its own code. -/
def OwnCodes (t : Keyed Entity) : Prop :=
  ∀ code e, t.get? code = some e → e.code = code

lemma OwnCodes.insert {t : Keyed Entity} {code : String} {e : Entity} (ht : OwnCodes t)
    (he : e.code = code) : OwnCodes (t.insert code e) := by
  intro other e' h
  rw [Keyed.get?_insert] at h
  split at h
  · next hother =>
    obtain rfl := Option.some.inj h
    rw [he, hother]
  · exact ht other e' h

lemma OwnCodes.apply {t : Keyed Entity} (ht : OwnCodes t) (edit : Edit) :
    OwnCodes (edit.apply t) := by
  cases edit with
  | create code =>
    rw [Edit.apply]
    split
    · exact ht
    · exact ht.insert rfl
  | declare path? e => exact ht.insert rfl
  | member code m =>
    intro other e' h
    rw [Edit.apply, Keyed.get?_modify] at h
    split at h
    · obtain ⟨e, he, rfl⟩ := Option.map_eq_some_iff.1 h
      exact ht other e he
    · exact ht other e' h

lemma OwnCodes.foldl_apply {t : Keyed Entity} (ht : OwnCodes t) (edits : List Edit) :
    OwnCodes (edits.foldl Edit.apply t) := by
  induction edits generalizing t with
  | nil => exact ht
  | cons edit rest ih => exact ih (ht.apply edit)

namespace Reader

/-- The edits for codes that a line names; codes of free notes need no entity. -/
def mentions (r : Reader) (codes : List String) : List Edit :=
  (codes.filter fun code => !r.noteCodes.contains code).map .create

/-- The edits of a line with a meaning. -/
def formEdits (r : Reader) : Line → List Edit
  | .note (.complete n) | .note (.start n) =>
    r.mentions ((r.settle n).target.shape?.toList)
  | .declare e hasBody =>
    r.mentions (e.parents ++ e.interfaces) ++
      if hasBody then [] else [.declare r.nesting.path? e]
  | .link l => r.mentions [Label.unquote l.source.code, Label.unquote l.target.code]
  | .member code m => [.create code, .member code m]
  | _ => []

/-- The edits of a line of the body of a map. -/
def entryEdits (r : Reader) (e : Entity) (s : List Char) : List Edit :=
  if Line.endsBody s then [.declare r.nesting.path? e]
  else
    match Line.mapEntry? s with
    | some (.link _ target) => r.mentions [target]
    | _ => []

/-- The entity of a document whose body a line ends. -/
def documentOf (e : Entity) (lines : List (List Char)) (s : List Char) : Entity :=
  let tail := if s.getLast? == some '\x7d' then s.dropLast else s
  let lines := if Chars.isBlankText tail then lines else lines ++ [tail]
  { e with document := some (Document.read ('\x7b' :: Chars.join ['\n'] lines ++ ['\x7d'])) }

/-- The edits of a line. -/
def edits (r : Reader) (line : SourceLine) : List Edit :=
  match r.body with
  | some (.note _ _) => []
  | some (.members e) =>
    if !line.text.isEmpty && Line.endsBody line.text then [.declare r.nesting.path? e] else []
  | some (.entries e) => if line.text.isEmpty then [] else r.entryEdits e line.text
  | some (.document e depth lines) =>
    if !line.text.isEmpty && depth + openBrackets line.text ≤ 0 then
      [.declare r.nesting.path? (documentOf e lines line.text)]
    else []
  | none =>
    if line.text.isEmpty then []
    else ((Line.read? line.text).map r.formEdits).getD []

variable {r : Reader}

lemma entities_create (r : Reader) (code : String) :
    (r.create code).entities = Edit.apply r.entities (.create code) := by
  rw [create, Edit.apply]
  split <;> rfl

lemma entities_mention (r : Reader) (code : String) :
    (r.mention code).entities = (r.mentions [code]).foldl Edit.apply r.entities := by
  by_cases hnote : code ∈ r.noteCodes
  · simp [mention, mentions, hnote]
  · simp [mention, mentions, hnote, entities_create]

@[simp]
lemma noteCodes_mention (r : Reader) (code : String) : (r.mention code).noteCodes = r.noteCodes := by
  unfold mention create
  split
  · rfl
  · split <;> rfl

@[simp]
lemma nesting_mention (r : Reader) (code : String) : (r.mention code).nesting = r.nesting := by
  unfold mention create
  split
  · rfl
  · split <;> rfl

lemma mentions_cons (r : Reader) (code : String) (codes : List String) :
    r.mentions (code :: codes) = r.mentions [code] ++ r.mentions codes := by
  unfold mentions
  rw [← List.map_append, ← List.filter_append, List.singleton_append]

/-- What naming codes one after the other does. -/
lemma foldl_mention (r : Reader) (codes : List String) :
    (codes.foldl mention r).entities = (r.mentions codes).foldl Edit.apply r.entities ∧
      (codes.foldl mention r).nesting = r.nesting := by
  induction codes generalizing r with
  | nil => exact ⟨rfl, rfl⟩
  | cons code rest ih =>
    obtain ⟨hentities, hnesting⟩ := ih (r.mention code)
    have hmentions : (r.mention code).mentions rest = r.mentions rest := by
      simp only [mentions, noteCodes_mention]
    rw [List.foldl_cons, mentions_cons, List.foldl_append, ← entities_mention, ← hmentions]
    exact ⟨hentities, hnesting.trans (nesting_mention r code)⟩

lemma entities_declare (r : Reader) (e : Entity) :
    (r.declare e).entities = Edit.apply r.entities (.declare r.nesting.path? e) :=
  rfl

lemma entities_mentionNote (r : Reader) (n : Note) :
    (r.mentionNote n).entities = (r.mentions n.target.shape?.toList).foldl Edit.apply r.entities := by
  unfold mentionNote
  split
  · next code h =>
    rw [h]
    exact entities_mention r code
  · next h =>
    rw [h]
    rfl
  · next h =>
    rw [h]
    rfl

lemma entities_apply (r : Reader) (line : Line) :
    (r.apply line).entities = (r.formEdits line).foldl Edit.apply r.entities := by
  cases line with
  | title | display | nothing | remove | together | package | blockEnd | faulty => rfl
  | note n =>
    cases n with
    | complete n => exact entities_mentionNote r (r.settle n)
    | start n => exact entities_mentionNote r (r.settle n)
  | declare e hasBody =>
    obtain ⟨hentities, hnesting⟩ := r.foldl_mention (e.parents ++ e.interfaces)
    rw [formEdits, List.foldl_append, ← hentities]
    cases hasBody with
    | true => rfl
    | false =>
      refine (entities_declare _ e).trans ?_
      rw [hnesting]
      rfl
  | link l =>
    exact (r.foldl_mention [Label.unquote l.source.code, Label.unquote l.target.code]).1
  | member code m =>
    rw [formEdits, List.foldl_cons, ← entities_create]
    rfl

/-- What a line does to the entities. -/
theorem entities_step (r : Reader) (line : SourceLine) :
    (r.step line).entities = (r.edits line).foldl Edit.apply r.entities := by
  unfold step edits
  cases r.body with
  | none =>
    dsimp only
    split
    · rfl
    · unfold readLine
      cases Line.read? line.text with
      | none => rfl
      | some l => exact entities_apply r l
  | some body =>
    cases body with
    | note n lines =>
      dsimp only
      split <;> rfl
    | members e =>
      dsimp only
      by_cases hempty : line.text.isEmpty = true
      · simp [hempty]
      · by_cases hend : Line.endsBody line.text = true
        · simp only [hempty, hend, memberLine, if_true]
          rfl
        · simp [hempty, hend, memberLine]
    | entries e =>
      dsimp only
      by_cases hempty : line.text.isEmpty = true
      · simp [hempty]
      · rw [if_neg hempty, if_neg hempty, entryLine, entryEdits]
        by_cases hend : Line.endsBody line.text = true
        · rw [if_pos hend, if_pos hend]
          rfl
        · rw [if_neg hend, if_neg hend]
          cases Line.mapEntry? line.text with
          | none => rfl
          | some entry =>
            cases entry with
            | value => rfl
            | link key target => exact entities_mention r target
    | document e depth lines =>
      dsimp only
      by_cases hempty : line.text.isEmpty = true
      · simp [hempty]
      · by_cases hend : depth + openBrackets line.text ≤ 0
        · simp only [hempty, hend, documentLine, if_true]
          rfl
        · simp [hempty, hend, documentLine]

lemma ownCodes_foldl_step (hr : OwnCodes r.entities) (lines : List SourceLine) :
    OwnCodes (lines.foldl step r).entities := by
  induction lines generalizing r with
  | nil => exact hr
  | cons line rest ih =>
    refine ih ?_
    rw [entities_step]
    exact hr.foldl_apply _

end Reader

/-- Every entity of a diagram that was read stands under its own code. -/
theorem Diagram.ownCodes_read {text : String} {d : Diagram} (hread : read text = .ok d) :
    OwnCodes d.entities := by
  obtain ⟨-, rfl⟩ := Fault.check_eq_ok_iff.1 hread
  have hstart : OwnCodes ({} : Reader).entities := fun _ _ h => nomatch h
  exact Reader.ownCodes_foldl_step hstart _

/-! ## What is kept of an entity that is declared again

A declaration puts a new record in the place of the one with its code, and of the old record it
takes over the members only.  So members are never lost, and everything else that is recorded of an
entity is what its last declaration says. -/


namespace Entity

/-- The second record has what the first one has, members left aside. -/
structure RepeatedBy (e e' : Entity) : Prop where
  parents : e.parents ⊆ e'.parents
  interfaces : e.interfaces ⊆ e'.interfaces
  stereotypes : e.stereotypes ⊆ e'.stereotypes
  entries : e.entries ⊆ e'.entries
  document : ∀ doc ∈ e.document, e'.document = some doc
  packagePath : e.packagePath.isSome → e'.packagePath.isSome

/-- Nothing of the first record is missing in the second one. -/
structure Keeps (e e' : Entity) : Prop extends RepeatedBy e e' where
  members : e.members ⊆ e'.members

/-- The record of an entity that was only named, with the members added to it since. -/
def created (code : String) (members : List BodyLine) : Entity :=
  { code := code, display := code, members := members }

variable {e e' : Entity}

lemma RepeatedBy.refl (e : Entity) : e.RepeatedBy e where
  parents := List.Subset.refl _
  interfaces := List.Subset.refl _
  stereotypes := List.Subset.refl _
  entries := List.Subset.refl _
  document := fun _ h => h
  packagePath := id

lemma repeatedBy_created (code : String) (members : List BodyLine) (e : Entity) :
    (created code members).RepeatedBy e where
  parents := List.nil_subset _
  interfaces := List.nil_subset _
  stereotypes := List.nil_subset _
  entries := List.nil_subset _
  document := fun _ h => (nomatch h)
  packagePath := fun h => (nomatch h)

/-- Members count for nothing in what a record repeats. -/
lemma repeatedBy_with_members (members : List BodyLine) :
    e.RepeatedBy { e' with members := members } ↔ e.RepeatedBy e' := by
  constructor
  · intro h
    exact ⟨h.parents, h.interfaces, h.stereotypes, h.entries, h.document, h.packagePath⟩
  · intro h
    exact ⟨h.parents, h.interfaces, h.stereotypes, h.entries, h.document, h.packagePath⟩

end Entity

/-! ### Changes -/

namespace Edit

/-- What a change adds to the body of the entity with a code. -/
def addsTo (code : String) : Edit → List BodyLine
  | create _ => []
  | declare _ e => if e.code = code then e.members else []
  | member other m => if other = code then [.member m] else []

/-- The record that a change puts in the place of the entity with a code. -/
def record? (code : String) : Edit → Option Entity
  | declare path? e =>
    if e.code = code then some { e with packagePath := path?.or e.packagePath } else none
  | create _ | member _ _ => none

/-- The record of the last declaration of a code. -/
def lastRecord? (code : String) (edits : List Edit) : Option Entity :=
  (edits.filterMap (record? code)).getLast?

/-- What changes make of the record of an entity. -/
def outcome (code : String) (e : Entity) (edits : List Edit) : Entity :=
  { (lastRecord? code edits).getD e with members := e.members ++ edits.flatMap (addsTo code) }

variable {t : Keyed Entity} {code : String} {e : Entity}

/-- What one change makes of the record of an entity. -/
lemma get?_apply (he : t.get? code = some e) (edit : Edit) :
    (edit.apply t).get? code =
      some { (edit.record? code).getD e with members := e.members ++ edit.addsTo code } := by
  cases edit with
  | create other =>
    have hsame : some e = some { e with members := e.members ++ [] } := by rw [List.append_nil]
    rw [apply]
    split
    · exact he.trans hsame
    · next hother =>
      -- what is in the table is not made again
      have hne : code ≠ other := by
        rintro rfl
        rw [Keyed.contains, he] at hother
        exact hother rfl
      rw [Keyed.get?_insert, if_neg hne, he]
      exact hsame
  | declare path? e' =>
    rw [apply, Keyed.get?_insert, record?, addsTo]
    by_cases h : e'.code = code
    · subst h
      rw [if_pos rfl, if_pos rfl, if_pos rfl, he]
      rfl
    · rw [if_neg (Ne.symm h), if_neg h, if_neg h, he, List.append_nil]
      rfl
  | member other m =>
    rw [apply, Keyed.get?_modify, addsTo]
    by_cases h : other = code
    · rw [if_pos h.symm, if_pos h, h, he]
      rfl
    · rw [if_neg (Ne.symm h), if_neg h, he, List.append_nil]
      rfl

/-- The last of a run of declarations counts. -/
lemma getD_lastRecord?_cons (edit : Edit) (edits : List Edit) (e : Entity) :
    (lastRecord? code (edit :: edits)).getD e =
      (lastRecord? code edits).getD ((edit.record? code).getD e) := by
  unfold lastRecord?
  cases h : edit.record? code with
  | none => rw [List.filterMap_cons_none h, Option.getD_none]
  | some new => rw [List.filterMap_cons_some h, List.getLast?_cons, Option.getD_some,
      Option.getD_some]

/-- The record of an entity after a run of changes. -/
theorem get?_foldl_apply (he : t.get? code = some e) (edits : List Edit) :
    (edits.foldl apply t).get? code = some (outcome code e edits) := by
  induction edits generalizing t e with
  | nil =>
    rw [outcome, List.flatMap_nil, List.append_nil]
    exact he
  | cons edit rest ih =>
    rw [List.foldl_cons, ih (get?_apply he edit), outcome, outcome, getD_lastRecord?_cons,
      List.flatMap_cons, List.append_assoc]
    -- the members of the records themselves do not count
    cases lastRecord? code rest <;> rfl

/-- Nothing is lost if and only if the last declaration repeats it. -/
lemma keeps_outcome_iff (edits : List Edit) :
    e.Keeps (outcome code e edits) ↔ ∀ new ∈ lastRecord? code edits, e.RepeatedBy new := by
  have hrepeated : e.RepeatedBy (outcome code e edits) ↔
      ∀ new ∈ lastRecord? code edits, e.RepeatedBy new := by
    refine (Entity.repeatedBy_with_members _).trans ?_
    cases lastRecord? code edits with
    | none => exact ⟨fun _ _ h => (nomatch h), fun _ => .refl e⟩
    | some new =>
      constructor
      · rintro h _ ⟨⟩
        exact h
      · exact fun h => h new rfl
  constructor
  · exact fun h => hrepeated.1 h.toRepeatedBy
  · exact fun h => ⟨hrepeated.2 h, List.subset_append_left _ _⟩

end Edit

/-! ### Lines -/

namespace Reader

/-- The changes that lines make, one line after the other. -/
def allEdits (r : Reader) : List SourceLine → List Edit
  | [] => []
  | line :: rest => r.edits line ++ (r.step line).allEdits rest

/-- What lines do to the entities. -/
theorem entities_foldl_step (r : Reader) (lines : List SourceLine) :
    (lines.foldl step r).entities = (r.allEdits lines).foldl Edit.apply r.entities := by
  induction lines generalizing r with
  | nil => rfl
  | cons line rest ih =>
    rw [List.foldl_cons, ih, entities_step, allEdits, List.foldl_append]

/-- The record of an entity after more lines. -/
theorem get?_foldl_step (r : Reader) {code : String} {e : Entity}
    (he : r.entities.get? code = some e) (lines : List SourceLine) :
    (lines.foldl step r).entities.get? code = some (Edit.outcome code e (r.allEdits lines)) := by
  rw [entities_foldl_step]
  exact Edit.get?_foldl_apply he _

/-- Whatever lines come after those that recorded an entity, its members stay and only get more,
and all else is what its last declaration says.  So nothing that was recorded of it is lost if and
only if this declaration, if there is one, says it again. -/
theorem keeps_iff_repeatedBy (before after : List SourceLine) {code : String} {e : Entity}
    (he : (before.foldl step {}).entities.get? code = some e) :
    let edits := (before.foldl step {}).allEdits after
    ∃ e', ((before ++ after).foldl step {}).entities.get? code = some e' ∧
      e'.members = e.members ++ edits.flatMap (Edit.addsTo code) ∧
      { e' with members := [] } =
        { (Edit.lastRecord? code edits).getD e with members := [] } ∧
      (e.Keeps e' ↔ ∀ new ∈ Edit.lastRecord? code edits, e.RepeatedBy new) := by
  intro edits
  refine ⟨Edit.outcome code e edits, ?_, rfl, rfl, Edit.keeps_outcome_iff edits⟩
  rw [List.foldl_append]
  exact get?_foldl_step _ he after

/-- A class with a body that is declared again: what it extends is said again, so it keeps all. -/
theorem keeps_iff_repeatedBy_class :
    let before := Source.lines "class A extends B \x7b\nx\n\x7d"
    let after := Source.lines "class A extends C, B \x7b\ny\n\x7d\nA : z"
    ∃ e e', (before.foldl step {}).entities.get? "A" = some e ∧ e.parents = ["B"] ∧
      ((before ++ after).foldl step {}).entities.get? "A" = some e' ∧
      e'.members.length = 3 ∧ e.Keeps e' := by
  intro before after
  obtain ⟨e, he, hfacts⟩ := (Option.any_eq_true _ _).1 (by decide +kernel :
    ((before.foldl step {}).entities.get? "A").any (fun e => e.parents == ["B"] &&
      e.interfaces == [] && e.stereotypes == [] && e.entries == [] && e.document.isNone &&
      e.packagePath.isNone && e.members.length == 1) = true)
  simp only [Bool.and_eq_true, beq_iff_eq, Option.isNone_iff_eq_none] at hfacts
  obtain ⟨⟨⟨⟨⟨⟨hparents, hinterfaces⟩, hstereotypes⟩, hentries⟩, hdocument⟩, hpath⟩, hmembers⟩ :=
    hfacts
  obtain ⟨e', he', hadded, -, hkeeps⟩ := keeps_iff_repeatedBy before after he
  have hlength : (((before.foldl step {}).allEdits after).flatMap (Edit.addsTo "A")).length = 2 := by
    decide +kernel
  have hlast : ((Edit.lastRecord? "A" ((before.foldl step {}).allEdits after)).map
      Entity.parents) = some ["C", "B"] := by decide +kernel
  refine ⟨e, e', he, hparents, he', by rw [hadded, List.length_append, hmembers, hlength], ?_⟩
  refine hkeeps.2 fun new hnew => ?_
  rw [Option.mem_def.1 hnew] at hlast
  have hnew : new.parents = ["C", "B"] := Option.some.inj hlast
  refine ⟨?_, ?_, ?_, ?_, ?_, ?_⟩
  · rw [hparents, hnew]
    decide
  · rw [hinterfaces]
    exact List.nil_subset _
  · rw [hstereotypes]
    exact List.nil_subset _
  · rw [hentries]
    exact List.nil_subset _
  · rw [hdocument]
    exact fun _ h => (nomatch h)
  · rw [hpath]
    exact fun h => (nomatch h)

/-- What is recorded of an entity that was only named and given members is kept, however it is
declared later on. -/
theorem keeps_of_created (before after : List SourceLine) {code : String}
    {members : List BodyLine}
    (he : (before.foldl step {}).entities.get? code = some (.created code members)) :
    ∃ e', ((before ++ after).foldl step {}).entities.get? code = some e' ∧
      (Entity.created code members).Keeps e' := by
  rw [List.foldl_append]
  refine ⟨_, get?_foldl_step _ he after, ?_⟩
  exact (Edit.keeps_outcome_iff _).2 fun new _ => Entity.repeatedBy_created code members new

end Reader

namespace Diagram

/-- A class that is declared again without what it extends: the first record is not kept, and the
connector of the class is drawn no more. -/
theorem not_keeps_declared_again :
    ∃ (d d' : Diagram) (line : SourceLine) (e e' : Entity),
      read "class A extends B" = .ok d ∧ read "class A extends B\nclass A" = .ok d' ∧
      Source.lines "class A extends B\nclass A" = Source.lines "class A extends B" ++ [line] ∧
      d.entities.get? "A" = some e ∧ d'.entities.get? "A" = some e' ∧
      e.parents = ["B"] ∧ e'.parents = [] ∧ ¬ e.Keeps e' ∧
      (d.draw "1").countP Cell.edge = 1 ∧ (d'.draw "1").countP Cell.edge = 0 := by
  obtain ⟨d, hread, hd⟩ := Fault.exists_of_any (by decide +kernel :
    (read "class A extends B").toOption.any (fun d =>
      (d.entities.get? "A").any (fun e => e.parents == ["B"]) &&
        (d.draw "1").countP Cell.edge == 1) = true)
  obtain ⟨d', hread', hd'⟩ := Fault.exists_of_any (by decide +kernel :
    (read "class A extends B\nclass A").toOption.any (fun d =>
      (d.entities.get? "A").any (fun e => e.parents == []) &&
        (d.draw "1").countP Cell.edge == 0) = true)
  simp only [Bool.and_eq_true, Option.any_eq_true, beq_iff_eq] at hd hd'
  obtain ⟨⟨e, he, hparents⟩, hcount⟩ := hd
  obtain ⟨⟨e', he', hparents'⟩, hcount'⟩ := hd'
  refine ⟨d, d', ⟨"class A".toList, "class A".toList⟩, e, e', hread, hread', by decide +kernel, he,
    he', hparents, hparents', ?_, hcount, hcount'⟩
  intro h
  have hB : "B" ∈ e'.parents := h.parents (by rw [hparents]; exact List.mem_singleton.2 rfl)
  rw [hparents'] at hB
  exact List.not_mem_nil hB

end Diagram
end Class
end UmlDraw
