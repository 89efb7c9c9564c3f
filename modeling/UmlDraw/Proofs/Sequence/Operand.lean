/-
# Participants as they are written

A line names a participant by a plain name or by a name in quotation marks, and the name is the
code.  A list of participants is read in two steps: the text of the list is captured, and then it is
cut into its parts.  Both steps find the same participants, because neither a comma nor a blank
within quotation marks ends a part.

The main statements are

* `Sequence.Operand.takes_participant`: a participant by itself;
* `Sequence.Operand.takes_writtenParticipants`: a list of participants;
* `Sequence.Operand.participantsOf_list`: the codes of a list.
-/
import UmlDraw.Proofs.Text.Consumed
import UmlDraw.Proofs.Text.Lines
import UmlDraw.Proofs.Text.Reading
import UmlDraw.Proofs.Text.Search
import UmlDraw.Sequence.Line

namespace UmlDraw

namespace Chars

variable {q : Char} {x : List Char}

lemma dropWhile_of_not_mem (h : q ∉ x) : x.dropWhile (· == q) = x := by
  cases x with
  | nil => rfl
  | cons c x =>
    have hc : (c == q) = false := beq_false_of_ne fun he => h (he ▸ List.mem_cons_self ..)
    rw [List.dropWhile_cons_of_neg (by rw [hc]; exact Bool.false_ne_true)]

lemma dropAround_of_not_mem (h : q ∉ x) : dropAround (· == q) x = x := by
  rw [dropAround, dropEndWhile, dropWhile_of_not_mem h,
    dropWhile_of_not_mem (fun hmem => h (List.mem_reverse.1 hmem)), List.reverse_reverse]

/-- A text between two marks of a kind, without them. -/
lemma dropAround_marks (hne : x ≠ []) (h : q ∉ x) : dropAround (· == q) (q :: (x ++ [q])) = x := by
  have hfront : (q :: (x ++ [q])).dropWhile (· == q) = x ++ [q] := by
    obtain ⟨c, x, rfl⟩ := List.exists_cons_of_ne_nil hne
    have hc : (c == q) = false := beq_false_of_ne fun he => h (he ▸ List.mem_cons_self ..)
    rw [List.dropWhile_cons_of_pos (by simp), List.cons_append,
      List.dropWhile_cons_of_neg (by rw [hc]; exact Bool.false_ne_true)]
  rw [dropAround, hfront, dropEndWhile, List.reverse_append, List.reverse_singleton,
    List.singleton_append, List.dropWhile_cons_of_pos (by simp),
    dropWhile_of_not_mem (fun hmem => h (List.mem_reverse.1 hmem)), List.reverse_reverse]

end Chars

namespace Sequence

open Scan

namespace Line

lemma isNameChar_of_isBlank {c : Char} (h : Letter.isBlank c = true) : isNameChar c = false := by
  have hdot : (c == '.') = false := by
    rw [beq_eq_false_iff_ne]
    rintro rfl
    cases h
  have hat : (c == '@') = false := by
    rw [beq_eq_false_iff_ne]
    rintro rfl
    cases h
  rw [isNameChar, Letter.isWord_of_isBlank h, hdot, hat]
  rfl

lemma isBlank_of_isNameChar {c : Char} (h : isNameChar c = true) : Letter.isBlank c = false := by
  cases hblank : Letter.isBlank c with
  | false => rfl
  | true =>
    rw [isNameChar_of_isBlank hblank] at h
    cases h

/-- No name goes on behind blanks, if none goes on without them. -/
lemma not_isNameChar_gap {gap s : List Char} (hgap : ∀ c ∈ gap, Letter.isBlank c = true)
    (hs : ∀ c ∈ s.head?, isNameChar c = false) : ∀ c ∈ (gap ++ s).head?, isNameChar c = false := by
  cases gap with
  | nil => exact hs
  | cons d gap =>
    exact fun c hc => isNameChar_of_isBlank (Option.some.inj hc ▸ hgap d (List.mem_cons_self ..))

/-- The characters with a meaning of their own are no part of a plain name. -/
lemma ne_of_isNameChar {c d : Char} (h : isNameChar c = true)
    (hd : d ∈ ['"', ',', '&', '-', '<', '>', '/', '\\', '[', '#', ':', '+', '*', '!']) : c ≠ d := by
  rintro rfl
  have hall : ∀ c ∈ ['"', ',', '&', '-', '<', '>', '/', '\\', '[', '#', ':', '+', '*', '!'],
      isNameChar c = false := by
    decide
  rw [hall c hd] at h
  cases h

end Line

/-- A participant as it is written. -/
inductive Operand where
  /-- A name in quotation marks. -/
  | quoted (name : List Char) (ne_nil : name ≠ []) (closed : '"' ∉ name)
  /-- A plain name. -/
  | plain (name : List Char) (ne_nil : name ≠ []) (word : ∀ c ∈ name, Line.isNameChar c = true)

namespace Operand

/-- The name. -/
def name : Operand → List Char
  | quoted name _ _ => name
  | plain name _ _ => name

/-- The code that the participant gets. -/
def code (o : Operand) : String :=
  String.ofList o.name

/-- The characters of the participant. -/
def chars : Operand → List Char
  | quoted name _ _ => '"' :: (name ++ ['"'])
  | plain name _ _ => name

/-- The participant is written in quotation marks. -/
def isQuoted : Operand → Bool
  | quoted .. => true
  | plain .. => false

/-- Nothing behind the participant goes on with its name. -/
def Apart (o : Operand) (s : List Char) : Prop :=
  o.isQuoted = false → ∀ c ∈ s.head?, Line.isNameChar c = false

variable (o : Operand) {s : List Char}

lemma quote_not_mem_name : '"' ∉ o.name := by
  cases o with
  | quoted name ne_nil closed => exact closed
  | plain name ne_nil word =>
    exact fun hmem => Line.ne_of_isNameChar (word _ hmem) (by decide) rfl

lemma chars_ne_nil : o.chars ≠ [] := by
  cases o with
  | quoted name ne_nil closed => exact List.cons_ne_nil _ _
  | plain name ne_nil word => exact ne_nil

lemma head_chars (s : List Char) :
    ∀ c ∈ (o.chars ++ s).head?, c = '"' ∨ Line.isNameChar c = true := by
  cases o with
  | quoted name ne_nil closed => exact fun c hc => .inl (Option.some.inj hc).symm
  | plain name ne_nil word =>
    obtain ⟨d, name, rfl⟩ := List.exists_cons_of_ne_nil ne_nil
    exact fun c hc => .inr (Option.some.inj hc ▸ word d (List.mem_cons_self ..))

lemma not_isBlank_head_chars (s : List Char) :
    ∀ c ∈ (o.chars ++ s).head?, Letter.isBlank c = false := by
  intro c hc
  rcases o.head_chars s c hc with rfl | h
  · rfl
  · exact Line.isBlank_of_isNameChar h

/-- A participant does not begin with the mark of a parallel message either. -/
lemma ne_head_chars (s : List Char) :
    ∀ c ∈ (o.chars ++ s).head?, c ≠ '&' ∧ Letter.isBlank c = false := by
  intro c hc
  refine ⟨?_, o.not_isBlank_head_chars s c hc⟩
  rintro rfl
  rcases o.head_chars s _ hc with h | h <;> cases h

/-- Blanks and a participant begin with one of their characters. -/
lemma head_gap_chars {gap : List Char} (hgap : ∀ c ∈ gap, Letter.isBlank c = true) (s : List Char) :
    ∀ c ∈ (gap ++ (o.chars ++ s)).head?,
      c = '"' ∨ Letter.isBlank c = true ∨ Line.isNameChar c = true := by
  cases gap with
  | nil => exact fun c hc => (o.head_chars s c hc).imp_right .inr
  | cons d gap =>
    exact fun c hc => .inr (.inl (Option.some.inj hc ▸ hgap d (List.mem_cons_self ..)))

lemma getLast_chars : ∀ c ∈ o.chars.getLast?, Letter.isBlank c = false := by
  cases o with
  | quoted name ne_nil closed =>
    intro c hc
    rw [chars, ← List.cons_append, List.getLast?_concat] at hc
    obtain rfl : '"' = c := Option.some.inj hc
    rfl
  | plain name ne_nil word =>
    exact fun c hc => Line.isBlank_of_isNameChar (word c (List.mem_of_getLast? hc))

lemma trim_chars : Chars.trim o.chars = o.chars := by
  have hhead := o.not_isBlank_head_chars []
  rw [List.append_nil] at hhead
  rw [Chars.trim, Chars.trimLeft_of_head hhead, Chars.trimRight_of_getLast o.getLast_chars]

lemma dropAround_chars : Chars.dropAround (· == '"') o.chars = o.name := by
  cases o with
  | quoted name ne_nil closed => exact Chars.dropAround_marks ne_nil closed
  | plain name ne_nil word =>
    exact Chars.dropAround_of_not_mem (quote_not_mem_name (plain name ne_nil word))

/-! ### A participant by itself -/

lemma takes_quoted {name : List Char} (ne_nil : name ≠ []) (closed : '"' ∉ name) (s : List Char) :
    Token.quoted.Takes ('"' :: (name ++ ['"']) ++ s) (String.ofList name) s := by
  rw [List.cons_append, List.append_assoc]
  exact (takes_char '"' _).bind (takes_many1_char ne_nil (Chars.all_ne_of_not_mem closed) rfl s)

lemma fails_quoted (h : ∀ c ∈ s.head?, c ≠ '"') : Token.quoted.Fails s :=
  (fails_char h).bind _

/-- A participant is read as its name. -/
lemma takes_participant (h : o.Apart s) : Line.participant.Takes (o.chars ++ s) o.code s := by
  cases o with
  | quoted name ne_nil closed => exact (takes_quoted ne_nil closed s).either_left _
  | plain name ne_nil word =>
    refine (takes_many1 ne_nil word (h rfl)).either_of_fails (fails_quoted ?_)
    obtain ⟨d, name, rfl⟩ := List.exists_cons_of_ne_nil ne_nil
    intro c hc
    obtain rfl : d = c := Option.some.inj hc
    exact Line.ne_of_isNameChar (word d (List.mem_cons_self ..)) (by decide)

/-- What stands behind a participant is known from the text. -/
lemma eq_of_chars_append {o o' : Operand} {t : List Char} (hs : o.Apart s) (ht : o'.Apart t)
    (h : o.chars ++ s = o'.chars ++ t) : s = t := by
  have hhead {name u : List Char} (hword : ∀ c ∈ name, Line.isNameChar c = true) (hne : name ≠ [])
      (v : List Char) : '"' :: u ≠ name ++ v := by
    obtain ⟨c, name, rfl⟩ := List.exists_cons_of_ne_nil hne
    intro hcons
    have hc := hword c (List.mem_cons_self ..)
    rw [← (List.cons.inj hcons).1] at hc
    cases hc
  cases o with
  | quoted name ne_nil closed =>
    cases o' with
    | quoted name' ne_nil' closed' =>
      simp only [chars, List.cons_append, List.append_assoc, List.nil_append] at h
      have hname := (List.cons.inj h).2
      obtain rfl := Chars.eq_of_append_stop closed closed' hname
      exact (List.cons.inj (List.append_cancel_left hname)).2
    | plain name' ne_nil' word' => exact absurd h (hhead word' ne_nil' t)
  | plain name ne_nil word =>
    cases o' with
    | quoted name' ne_nil' closed' => exact absurd h.symm (hhead word ne_nil s)
    | plain name' ne_nil' word' => exact Chars.eq_of_append_run word word' (hs rfl) (ht rfl) h

/-- No participant begins with another character. -/
lemma fails_participant (h : ∀ c ∈ s.head?, c ≠ '"' ∧ Line.isNameChar c = false) :
    Line.participant.Fails s :=
  (fails_quoted fun c hc => (h c hc).1).either (fails_many1 fun c hc => (h c hc).2)

lemma fails_participant_blank {d : Char} (hd : Letter.isBlank d = true) (s : List Char) :
    Line.participant.Fails (d :: s) := by
  refine fails_participant fun c hc => ?_
  obtain rfl : d = c := Option.some.inj hc
  refine ⟨?_, Line.isNameChar_of_isBlank hd⟩
  rintro rfl
  cases hd

/-- Nothing else is read as a participant. -/
lemma cuts_participant :
    Line.participant.Cuts fun x a _ => ∃ o : Operand, x = o.chars ∧ a = o.code := by
  have hquoted : Token.quoted.Cuts fun x a _ => ∃ o : Operand, x = o.chars ∧ a = o.code := by
    intro _ s next b hb
    obtain ⟨_, _, t, rfl, rfl, h₁⟩ := (Cuts.char '"').of_bind hb
    obtain ⟨name, _, t, rfl, ⟨rfl, hne, hname⟩, h₂⟩ := (Cuts.many1 _).of_bind h₁
    obtain ⟨_, _, t, rfl, rfl, h₃⟩ := (Cuts.char '"').of_bind h₂
    have hclosed : '"' ∉ name := fun hmem => absurd (hname _ hmem) (by decide)
    exact ⟨'"' :: (name ++ ['"']), _, t, by simp, ⟨quoted name hne hclosed, rfl, rfl⟩, h₃⟩
  exact hquoted.either ((Cuts.many1 _).imp fun x a _ ⟨ha, hne, hword⟩ =>
    ⟨plain x hne hword, rfl, ha⟩)

/-! ### Lists of participants -/

/-- A part of a list of participants is a participant as it is written. -/
lemma takes_listPart (h : ∀ c ∈ s.head?, c = ',' ∨ Letter.isBlank c = true) :
    Line.listPart.Takes (o.chars ++ s) (String.ofList o.chars) s := by
  cases o with
  | quoted name ne_nil closed => exact (takes_quoted ne_nil closed s).captured.either_left _
  | plain name ne_nil word =>
    refine (takes_many1 ne_nil ?_ ?_).either_of_fails (Fails.captured (fails_quoted ?_))
    · intro c hc
      rw [Line.isBlank_of_isNameChar (word c hc), Bool.not_false, Bool.and_true, bne_iff_ne]
      exact Line.ne_of_isNameChar (word c hc) (by decide)
    · intro c hc
      rcases h c hc with rfl | hblank
      · rfl
      · rw [hblank, Bool.not_true, Bool.and_false]
    · obtain ⟨d, name, rfl⟩ := List.exists_cons_of_ne_nil ne_nil
      intro c hc
      obtain rfl : d = c := Option.some.inj hc
      exact Line.ne_of_isNameChar (word d (List.mem_cons_self ..)) (by decide)

end Operand

/-- A participant in a list, behind a separator. -/
structure Listed where
  /-- The blanks before the separator. -/
  before : List Char
  /-- The blanks behind it. -/
  behind : List Char
  /-- The participant. -/
  operand : Operand
  before_blank : ∀ c ∈ before, Letter.isBlank c = true
  behind_blank : ∀ c ∈ behind, Letter.isBlank c = true

/-- A comma in the place of an ampersand. -/
def comma (c : Char) : Char :=
  if c == '&' then ',' else c

lemma comma_of_ne {c : Char} (h : c ≠ '&') : comma c = c :=
  if_neg (by simpa using h)

lemma comma_ne_quote {c : Char} (h : c ≠ '"') : comma c ≠ '"' := by
  unfold comma
  split
  · decide
  · exact h

/-- The participant with commas in the place of ampersands. -/
def Operand.withCommas : Operand → Operand
  | .quoted name ne_nil closed =>
    .quoted (name.map comma) (by simpa using ne_nil) fun hmem =>
      have ⟨_, hc, heq⟩ := List.mem_map.1 hmem
      comma_ne_quote (fun he => closed (he ▸ hc)) heq
  | .plain name ne_nil word => .plain name ne_nil word

lemma Operand.name_withCommas (o : Operand) : o.withCommas.name = o.name.map comma := by
  cases o with
  | quoted name ne_nil closed => rfl
  | plain name ne_nil word =>
    have hmap : name.map comma = name.map id :=
      List.map_congr_left fun c hc => comma_of_ne (Line.ne_of_isNameChar (word c hc) (by decide))
    rw [List.map_id] at hmap
    exact hmap.symm

lemma Operand.map_comma_chars (o : Operand) : o.chars.map comma = o.withCommas.chars := by
  cases o with
  | quoted name ne_nil closed =>
    rw [chars, List.map_cons, List.map_append]
    rfl
  | plain name ne_nil word => exact (name_withCommas (.plain name ne_nil word)).symm

namespace Listed

/-- The characters, with the separator. -/
def chars (sep : Char) (l : Listed) : List Char :=
  l.before ++ sep :: (l.behind ++ l.operand.chars)

/-- The characters of a list of participants, each behind a separator. -/
def all (sep : Char) (l : List Listed) : List Char :=
  l.flatMap (chars sep)

variable {sep : Char} (l : Listed) {s : List Char}

/-- Behind a participant stands a blank or the next separator. -/
lemma head_all (ls : List Listed) :
    ∀ c ∈ (all sep ls ++ s).head?, c = sep ∨ Letter.isBlank c = true ∨ c ∈ s.head? := by
  cases ls with
  | nil => exact fun c hc => .inr (.inr hc)
  | cons l ls =>
    intro c hc
    rw [all, List.flatMap_cons, chars, List.append_assoc, List.append_assoc] at hc
    cases hbefore : l.before with
    | nil =>
      rw [hbefore] at hc
      exact .inl (Option.some.inj hc).symm
    | cons d before =>
      rw [hbefore] at hc
      obtain rfl : d = c := Option.some.inj hc
      exact .inr (.inl (l.before_blank d (hbefore ▸ List.mem_cons_self ..)))

/-- Behind a participant stand blanks, and then a separator or what follows the list. -/
lemma exists_gap_all (sep : Char) (s : List Char) {gap : List Char}
    (hgap : ∀ c ∈ gap, Letter.isBlank c = true) (ls : List Listed) : ∃ gap' t, all sep ls ++ (gap ++ s) = gap' ++ t ∧
      (∀ c ∈ gap', Letter.isBlank c = true) ∧ ∀ c ∈ t.head?, c = sep ∨ c ∈ s.head? := by
  cases ls with
  | nil => exact ⟨gap, s, rfl, hgap, fun c hc => .inr hc⟩
  | cons l ls =>
    refine ⟨l.before, sep :: (l.behind ++ l.operand.chars ++ (all sep ls ++ (gap ++ s))), ?_,
      l.before_blank, fun c hc => .inl (Option.some.inj hc).symm⟩
    simp [all, chars]

/-- Nothing behind a participant of a list goes on with its name. -/
lemma not_isNameChar_head_all (hname : Line.isNameChar sep = false)
    (hs : ∀ c ∈ s.head?, Line.isNameChar c = false) (ls : List Listed) :
    ∀ c ∈ (all sep ls ++ s).head?, Line.isNameChar c = false := by
  intro c hc
  rcases head_all ls c hc with rfl | hblank | hc
  · exact hname
  · exact Line.isNameChar_of_isBlank hblank
  · exact hs c hc

/-- A participant behind a separator, as scans read it. -/
def scan (sep : Char) : Scan String := do
  Scan.blanks
  let _ ← Scan.char sep
  Scan.blanks
  Line.participant

lemma takes_scan (hsep : Letter.isBlank sep = false) (h : l.operand.Apart s) :
    (scan sep).Takes (l.chars sep ++ s) l.operand.code s := by
  rw [chars, List.append_assoc, List.cons_append, List.append_assoc]
  refine (takes_skip l.before_blank ?_).bind ((takes_char sep _).bind
    ((takes_skip l.behind_blank (l.operand.not_isBlank_head_chars s)).bind
      (l.operand.takes_participant h)))
  intro c hc
  obtain rfl : sep = c := Option.some.inj hc
  exact hsep

/-- All participants of a list are read, up to a text that goes on neither with a name nor with a
separator. -/
lemma takesAll_scan (hsep : Letter.isBlank sep = false) (hname : Line.isNameChar sep = false)
    {gap : List Char} (hgap : ∀ c ∈ gap, Letter.isBlank c = true)
    (hs : ∀ c ∈ s.head?, Letter.isBlank c = false ∧ c ≠ sep)
    (hend : ∀ c ∈ (gap ++ s).head?, Line.isNameChar c = false) (ls : List Listed) :
    (scan sep).TakesAll (all sep ls ++ (gap ++ s)) (ls.map fun l => l.operand.code) (gap ++ s) := by
  induction ls with
  | nil =>
    refine TakesAll.nil (s := gap ++ s) (fails_skip_bind hgap (fun c hc => (hs c hc).1) ?_ ?_)
    · exact (fails_char fun c hc => (hs c hc).2).bind _
    · intro d u hd
      refine (fails_char (s := d :: u) ?_).bind _
      rintro c hc rfl
      rw [← Option.some.inj hc, hd] at hsep
      cases hsep
  | cons l ls ih =>
    have happart : l.operand.Apart (all sep ls ++ (gap ++ s)) := fun _ =>
      not_isNameChar_head_all hname hend ls
    have htakes := l.takes_scan hsep happart
    rw [← List.append_assoc] at htakes
    refine TakesAll.cons htakes ?_ ih
    have hpos := List.length_pos_iff.2 l.operand.chars_ne_nil
    simp only [all, List.flatMap_cons, chars, List.length_append, List.length_cons]
    omega

lemma fails_listPart {c : Char} (h : c = ',' ∨ Letter.isBlank c = true) (s : List Char) :
    Line.listPart.Fails (c :: s) := by
  have hc : c ≠ '"' := by
    rintro rfl
    exact absurd h (by decide)
  refine (Fails.captured (Operand.fails_quoted ?_)).either (fails_many1 ?_)
  · intro d hd
    exact Option.some.inj hd ▸ hc
  · intro d hd
    obtain rfl : c = d := Option.some.inj hd
    rcases h with rfl | hblank
    · rfl
    · rw [hblank, Bool.not_true, Bool.and_false]

/-- The parts of a list of participants. -/
lemma occurrences_listPart (ls : List Listed) {n : Nat} (hn : (all ',' ls).length ≤ n) :
    Line.listPart.occurrencesWithin n (all ',' ls) =
      ls.map fun l => String.ofList l.operand.chars := by
  induction ls generalizing n with
  | nil =>
    cases n <;> rfl
  | cons l ls ih =>
    have hchars : all ',' (l :: ls) =
        (l.before ++ ',' :: l.behind) ++ (l.operand.chars ++ all ',' ls) := by
      simp [all, chars]
    have hpos := List.length_pos_iff.2 l.operand.chars_ne_nil
    have hlength : (all ',' ls).length + 1 + (l.before ++ ',' :: l.behind).length ≤ n := by
      simp only [hchars, List.length_append] at hn ⊢
      omega
    obtain ⟨k, rfl⟩ := Nat.exists_eq_add_of_le hlength
    -- no part begins before the participant
    have hfails : Line.listPart.FailsOn (l.before ++ ',' :: l.behind)
        (l.operand.chars ++ all ',' ls) := by
      intro a b hab hb
      obtain ⟨c, b, rfl⟩ := List.exists_cons_of_ne_nil hb
      refine fails_listPart ?_ _ _
      have hc : c ∈ l.before ++ ',' :: l.behind := hab ▸ List.mem_append_right a (List.mem_cons_self ..)
      rw [List.mem_append, List.mem_cons] at hc
      rcases hc with hc | hc | hc
      · exact .inr (l.before_blank c hc)
      · exact .inl hc
      · exact .inr (l.behind_blank c hc)
    have htakes := l.operand.takes_listPart (s := all ',' ls) ?_
    · have hstep := occurrencesWithin_step hfails l.operand.chars_ne_nil (htakes _ _ rfl)
        ((all ',' ls).length + k)
      rw [ih (Nat.le_add_right _ _)] at hstep
      rw [hchars, List.map_cons, ← hstep]
      congr 1
      omega
    · intro c hc
      rw [← List.append_nil (all ',' ls)] at hc
      rcases head_all ls c hc with h | h | h
      · exact .inl h
      · exact .inr h
      · cases h

lemma ofList_dropAround_trim (o : Operand) :
    String.ofList (Chars.dropAround (· == '"') (Chars.trim (String.ofList o.chars).toList)) =
      o.code := by
  rw [String.toList_ofList, o.trim_chars, o.dropAround_chars, Operand.code]

/-- The codes of participants that stand behind commas. -/
lemma participantsOf_all (ls : List Listed) :
    Line.participantsOf (String.ofList (all ',' ls)) = ls.map fun l => l.operand.code := by
  rw [Line.participantsOf, occurrences, String.toList_ofList,
    occurrences_listPart ls (Nat.le_succ _), List.map_map]
  exact List.map_congr_left fun l _ => ofList_dropAround_trim l.operand

/-- The codes of a list. -/
lemma participantsOf_list (o : Operand) (ls : List Listed) :
    Line.participantsOf (String.ofList (o.chars ++ all ',' ls)) =
      o.code :: ls.map fun l => l.operand.code := by
  have hhead : ∀ c ∈ (all ',' ls).head?, c = ',' ∨ Letter.isBlank c = true := by
    intro c hc
    rw [← List.append_nil (all ',' ls)] at hc
    rcases head_all ls c hc with h | h | h
    · exact .inl h
    · exact .inr h
    · cases h
  have hstep := occurrencesWithin_step (FailsOn.nil _ _) o.chars_ne_nil
    (o.takes_listPart hhead _ _ rfl) (o.chars ++ all ',' ls).length
  rw [occurrences_listPart ls (by simp)] at hstep
  rw [Line.participantsOf, occurrences, String.toList_ofList]
  refine (congrArg (List.map _) hstep).trans ?_
  rw [List.map_cons, List.map_map, ofList_dropAround_trim]
  exact congrArg _ (List.map_congr_left fun l _ => ofList_dropAround_trim l.operand)

/-- The participant in a list, with commas in the place of ampersands. -/
def withCommas (l : Listed) : Listed :=
  { l with operand := l.operand.withCommas }

lemma map_comma_of_blank {x : List Char} (h : ∀ c ∈ x, Letter.isBlank c = true) :
    x.map comma = x := by
  have hmap : x.map comma = x.map id := by
    refine List.map_congr_left fun c hc => comma_of_ne ?_
    rintro rfl
    exact absurd (h _ hc) (by decide)
  rwa [List.map_id] at hmap

lemma map_comma_all (ls : List Listed) :
    (all '&' ls).map comma = all ',' (ls.map withCommas) := by
  induction ls with
  | nil => rfl
  | cons l ls ih =>
    have hchars : (l.chars '&').map comma = l.withCommas.chars ',' := by
      rw [chars, List.map_append, List.map_cons, List.map_append, l.operand.map_comma_chars,
        map_comma_of_blank l.before_blank, map_comma_of_blank l.behind_blank]
      rfl
    rw [all, List.flatMap_cons, List.map_append, hchars]
    exact congrArg _ ih

/-- The codes of further targets: before they are cut apart, each ampersand is replaced by a comma,
also within quotation marks. -/
lemma participantsOf_targets (ls : List Listed) :
    Line.participantsOf (String.ofList ((String.ofList (all '&' ls)).toList.map comma)) =
      ls.map fun l => String.ofList (l.operand.name.map comma) := by
  rw [String.toList_ofList, map_comma_all, participantsOf_all, List.map_map]
  exact List.map_congr_left fun l _ => congrArg String.ofList l.operand.name_withCommas

/-- A list of participants is captured as it is written. -/
lemma takes_writtenParticipants (o : Operand) (ls : List Listed) {gap : List Char}
    (hgap : ∀ c ∈ gap, Letter.isBlank c = true)
    (hs : ∀ c ∈ s.head?, Letter.isBlank c = false ∧ c ≠ ',')
    (hend : ∀ c ∈ (gap ++ s).head?, Line.isNameChar c = false) :
    Line.writtenParticipants.Takes (o.chars ++ all ',' ls ++ (gap ++ s))
      (String.ofList (o.chars ++ all ',' ls)) (gap ++ s) := by
  have hfirst : o.Apart (all ',' ls ++ (gap ++ s)) := fun _ =>
    not_isNameChar_head_all (by decide) hend ls
  have hall := takesAll_scan (by decide) (by decide) hgap hs hend ls
  have htakes := (o.takes_participant hfirst).bind (f := fun _ => (scan ',').repeated) hall.repeated
  rw [← List.append_assoc] at htakes
  exact htakes.captured

/-- Further targets of a message are captured as they are written. -/
lemma takes_writtenTargets (ls : List Listed) {gap : List Char}
    (hgap : ∀ c ∈ gap, Letter.isBlank c = true)
    (hs : ∀ c ∈ s.head?, Letter.isBlank c = false ∧ c ≠ '&')
    (hend : ∀ c ∈ (gap ++ s).head?, Line.isNameChar c = false) :
    Line.writtenTargets.Takes (all '&' ls ++ (gap ++ s)) (String.ofList (all '&' ls)) (gap ++ s) :=
  (takesAll_scan (by decide) (by decide) hgap hs hend ls).repeated.captured

/-- Nothing else is read as further targets of a message. -/
lemma cuts_writtenTargets :
    Line.writtenTargets.Cuts fun x _ _ => ∃ ls : List Listed, x = all '&' ls := by
  have hscan : (scan '&').Cuts fun x _ _ => ∃ l : Listed, x = l.chars '&' := by
    intro _ s next b hb
    unfold scan at hb
    obtain ⟨before, _, t, rfl, hbefore, h₁⟩ := (Cuts.skip _).of_bind hb
    obtain ⟨_, _, t, rfl, rfl, h₂⟩ := (Cuts.char '&').of_bind h₁
    obtain ⟨behind, _, t, rfl, hbehind, h₃⟩ := (Cuts.skip _).of_bind h₂
    obtain ⟨_, a, t, rfl, ⟨o, rfl, -⟩, h₄⟩ := Operand.cuts_participant _ _ _ h₃
    let l : Listed := ⟨before, behind, o, hbefore, hbehind⟩
    exact ⟨l.chars '&', a, t, by simp [l, chars], ⟨l, rfl⟩, h₄⟩
  refine (Cuts.repeated hscan).captured.imp ?_
  rintro _ _ _ ⟨-, _, xs, rfl, -, hxs⟩
  induction xs with
  | nil => exact ⟨[], rfl⟩
  | cons y xs ih =>
    obtain ⟨⟨l, hl⟩, hxs⟩ := List.forall_mem_cons.1 hxs
    obtain ⟨ls, hls⟩ := ih hxs
    refine ⟨l :: ls, ?_⟩
    rw [List.map_cons, List.flatten_cons, hl, hls]
    rfl

end Listed

end Sequence
end UmlDraw
