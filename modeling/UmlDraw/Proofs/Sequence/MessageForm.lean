/-
# What is read as a message

A line that is read as a message can be cut into the parts of a message.  It has a reading with some
parts, and then it is written as a message, although the parts that it is written with may be
others: a letter between a name and the dashes is part of the name.  But what is read of a line as
it is written is known, so it is known for every line that is read as a message.

The main statements are

* `Sequence.Line.cuts_arrow` and the lemmas beside it: the texts of the parts;
* `Sequence.MessageText.exists_chars`: a line that is read as a message is written as one;
* `Sequence.MessageText.whole_readMessage_iff`: the lines that are read as messages;
* `Sequence.WrittenArrow.eq_of_chars_append`: where an arrow ends;
* `Sequence.MessageText.whole_borderLeft` and `Sequence.MessageText.whole_borderRight`: a message
  between participants is none at the border of the diagram.
-/
import UmlDraw.Proofs.Sequence.MessageText

namespace UmlDraw
namespace Sequence

open Scan

/-! ### The parts of a message -/

namespace Line

lemma eq_replicate_dashes {x : List Char} (h : ∀ c ∈ x, (c == '-') = true) :
    x = List.replicate x.length '-' :=
  List.eq_replicate_of_mem fun c hc => beq_iff_eq.1 (h c hc)

lemma cuts_startMark : (Scan.optional startMark).Cuts fun x _ _ =>
    ∃ m : Option Char, x = m.toList ∧ ∀ c ∈ m, c = 'o' ∨ c = 'x' := by
  have hmark : startMark.Cuts fun x _ _ => ∃ c, x = [c] ∧ (c = 'o' ∨ c = 'x') := by
    intro _ s next b hb
    obtain ⟨_, c, t, rfl, ⟨rfl, hc⟩, h₁⟩ := (Cuts.satisfy _).of_bind hb
    obtain ⟨_, _, t, rfl, ⟨rfl, -⟩, h₂⟩ := Cuts.ahead _ _ _ _ h₁
    exact ⟨[c], (), t, rfl, ⟨c, rfl, by simpa using hc⟩, h₂⟩
  refine hmark.optional.imp ?_
  rintro x _ _ (⟨-, rfl⟩ | ⟨_, -, c, rfl, hc⟩)
  · exact ⟨none, rfl, nofun⟩
  · exact ⟨some c, rfl, fun d hd => Option.some.inj hd ▸ hc⟩

lemma cuts_endMark : (Scan.optional endMark).Cuts fun x _ t => ∃ m : Option Char, x = m.toList ∧
    (∀ c ∈ m, c = 'o' ∨ c = 'x') ∧ (m ≠ none → ∀ c ∈ t.head?, isNameChar c = false) := by
  have hmark : endMark.Cuts fun x _ t => ∃ c, x = [c] ∧ (c = 'o' ∨ c = 'x') ∧
      ∀ c ∈ t.head?, isNameChar c = false := by
    intro _ s next b hb
    obtain ⟨_, c, t, rfl, ⟨rfl, hc⟩, h₁⟩ := (Cuts.satisfy _).of_bind hb
    obtain ⟨_, _, t, rfl, ⟨rfl, ht⟩, h₂⟩ := Cuts.ahead _ _ _ _ h₁
    refine ⟨[c], (), t, rfl, ⟨c, rfl, by simpa using hc, ?_⟩, h₂⟩
    cases t with
    | nil => exact nofun
    | cons d t => exact fun e he => Option.some.inj he ▸ by simpa using ht
  refine hmark.optional.imp ?_
  rintro x _ _ (⟨-, rfl⟩ | ⟨_, -, c, rfl, hc, ht⟩)
  · exact ⟨none, rfl, nofun, fun h => absurd rfl h⟩
  · exact ⟨some c, rfl, fun d hd => Option.some.inj hd ▸ hc, fun _ => ht⟩

lemma cuts_dressing (ws : List String) :
    (Scan.optional (Scan.anyOf (ws.map Scan.text))).Cuts fun x _ _ =>
      x ∈ [] :: ws.map String.toList := by
  have hany : (Scan.anyOf (ws.map Scan.text)).Cuts fun x _ _ => x ∈ ws.map String.toList := by
    refine Cuts.anyOf fun p hp => ?_
    obtain ⟨w, hw, rfl⟩ := List.mem_map.1 hp
    exact (Cuts.text w).imp fun x _ _ hx => hx ▸ List.mem_map_of_mem hw
  refine hany.optional.imp ?_
  rintro x _ _ (⟨-, rfl⟩ | ⟨_, -, hx⟩)
  · exact List.mem_cons_self ..
  · exact List.mem_cons_of_mem _ hx

lemma cuts_modifier : (Scan.optional Arrow.modifier).Cuts fun x _ _ => ∃ m : Option (List Char),
    x = (m.map fun inner => '[' :: (inner ++ [']'])).getD [] ∧ ∀ inner ∈ m, ']' ∉ inner := by
  have hmodifier : Arrow.modifier.Cuts fun x _ _ =>
      ∃ inner, x = '[' :: (inner ++ [']']) ∧ ']' ∉ inner := by
    intro _ s next b hb
    obtain ⟨_, _, t, rfl, rfl, h₁⟩ := (Cuts.char '[').of_bind hb
    obtain ⟨inner, _, t, rfl, ⟨rfl, hinner⟩, h₂⟩ := (Cuts.many _).of_bind h₁
    obtain ⟨_, _, t, rfl, rfl, h₃⟩ := (Cuts.char ']').of_bind h₂
    exact ⟨'[' :: (inner ++ [']']), _, t, by simp,
      ⟨inner, rfl, fun hmem => absurd (hinner _ hmem) (by decide)⟩, h₃⟩
  refine hmodifier.optional.imp ?_
  rintro x _ _ (⟨-, rfl⟩ | ⟨_, -, inner, rfl, hinner⟩)
  · exact ⟨none, rfl, nofun⟩
  · exact ⟨some inner, rfl, fun _ h => Option.some.inj h ▸ hinner⟩

/-- Nothing but an arrow is read as one. -/
lemma cuts_arrow : arrow.Cuts fun x _ t => ∃ a : WrittenArrow, x = a.chars ∧ 0 < a.before ∧
    (a.endMark ≠ none → ∀ c ∈ t.head?, isNameChar c = false) := by
  refine (Cuts.captured (R := fun x (_ : Unit) t => ∃ a : WrittenArrow, x = a.chars ∧ 0 < a.before ∧
    (a.endMark ≠ none → ∀ c ∈ t.head?, isNameChar c = false)) ?_).imp
      fun _ _ _ h => h.2.elim fun _ h => h
  intro _ s next b hb
  obtain ⟨_, _, t, rfl, ⟨startMark, rfl, hstart⟩, h₁⟩ := cuts_startMark.of_bind hb
  obtain ⟨left, _, t, rfl, hleft, h₂⟩ := (cuts_dressing _).of_bind h₁
  obtain ⟨before, _, t, rfl, ⟨hne, hbefore⟩, h₃⟩ := (Cuts.skip1 _).of_bind h₂
  obtain ⟨_, _, t, rfl, ⟨modifier, rfl, hmodifier⟩, h₄⟩ := cuts_modifier.of_bind h₃
  obtain ⟨after, _, t, rfl, hafter, h₅⟩ := (Cuts.skip _).of_bind h₄
  obtain ⟨right, _, t, rfl, hright, h₆⟩ := (cuts_dressing _).of_bind h₅
  obtain ⟨_, _, t, rfl, ⟨endMark, rfl, hend, ht⟩, h₇⟩ := cuts_endMark.of_bind h₆
  have hpos : 0 < before.length := List.length_pos_iff.2 hne
  have hlefts : ∀ x ∈ [] :: ["<<", "<", "//", "/", "\\\\", "\\"].map String.toList,
      x ∈ [] :: Arrow.leftDressings := by
    decide
  have hrights : ∀ x ∈ [] :: [">>", ">", "//", "/", "\\\\", "\\"].map String.toList,
      x ∈ [] :: Arrow.rightDressings := by
    decide
  let a : WrittenArrow :=
    { startMark := startMark, left := left, before := before.length, modifier := modifier
      after := after.length, right := right, endMark := endMark
      startMark_mem := hstart, left_mem := hlefts left hleft, dashes_pos := Nat.add_pos_left hpos _
      modifier_closed := hmodifier, right_mem := hrights right hright, endMark_mem := hend }
  refine ⟨a.chars, (), t, ?_, ⟨a, rfl, hpos, ht⟩, h₇⟩
  have hdashes : List.replicate before.length '-' = before := (eq_replicate_dashes hbefore).symm
  have hdashes' : List.replicate after.length '-' = after := (eq_replicate_dashes hafter).symm
  simp [a, WrittenArrow.chars, WrittenArrow.front, WrittenArrow.back, WrittenArrow.bracketed,
    hdashes, hdashes']

lemma cuts_color : (Scan.optional Token.color).Cuts fun x _ _ =>
    ∃ color : Option WrittenColor, x = (color.map WrittenColor.chars).getD [] := by
  have hplain : Token.plainColor.Cuts fun x _ _ =>
      ∃ word, x = '#' :: word ∧ word ≠ [] ∧ ∀ c ∈ word, Letter.isWord c = true := by
    refine (Cuts.captured (R := fun x (_ : String) _ =>
      ∃ word, x = '#' :: word ∧ word ≠ [] ∧ ∀ c ∈ word, Letter.isWord c = true) ?_).imp
        fun _ _ _ h => h.2.elim fun _ h => h
    intro _ s next b hb
    obtain ⟨_, _, t, rfl, rfl, h₁⟩ := (Cuts.char '#').of_bind hb
    obtain ⟨word, a, t, rfl, ⟨-, hne, hword⟩, h₂⟩ := Cuts.many1 _ _ _ _ h₁
    exact ⟨'#' :: word, a, t, rfl, ⟨word, rfl, hne, hword⟩, h₂⟩
  have hsecond : (do
      let _ ← Scan.satisfy fun c => c == '-' || c == '\\' || c == '|' || c == '/'
      Scan.many1 Letter.isWord : Scan String).Cuts fun x _ _ => ∃ d word, x = d :: word ∧
        d ∈ ['-', '\\', '|', '/'] ∧ word ≠ [] ∧ ∀ c ∈ word, Letter.isWord c = true := by
    intro _ s next b hb
    obtain ⟨_, d, t, rfl, ⟨rfl, hd⟩, h₁⟩ := (Cuts.satisfy _).of_bind hb
    obtain ⟨word, a, t, rfl, ⟨-, hne, hword⟩, h₂⟩ := Cuts.many1 _ _ _ _ h₁
    refine ⟨d :: word, a, t, rfl, ⟨d, word, rfl, ?_, hne, hword⟩, h₂⟩
    simpa [or_assoc] using hd
  have hcolor : (do
      let _ ← Token.plainColor
      let _ ← Scan.optional do
        let _ ← Scan.satisfy fun c => c == '-' || c == '\\' || c == '|' || c == '/'
        Scan.many1 Letter.isWord
      pure () : Scan Unit).Cuts fun x _ _ => ∃ w : WrittenColor, x = w.chars := by
    intro _ s next b hb
    obtain ⟨_, _, t, rfl, ⟨word, rfl, hne, hword⟩, h₁⟩ := hplain.of_bind hb
    obtain ⟨_, _, t, rfl, hx, h₂⟩ := hsecond.optional.of_bind h₁
    rcases hx with ⟨-, rfl⟩ | ⟨_, -, d, word', rfl, hd, hne', hword'⟩
    · exact ⟨'#' :: word, (), t, rfl,
        ⟨⟨word, none, hne, hword, nofun⟩, by simp [WrittenColor.chars]⟩, h₂⟩
    · exact ⟨'#' :: (word ++ d :: word'), (), t, by simp,
        ⟨⟨word, some (d, word'), hne, hword, fun y hy => Option.some.inj hy ▸ ⟨hd, hne', hword'⟩⟩,
          by simp [WrittenColor.chars]⟩, h₂⟩
  refine hcolor.captured.optional.imp ?_
  rintro x _ _ (⟨-, rfl⟩ | ⟨_, -, -, _, w, rfl⟩)
  · exact ⟨none, rfl⟩
  · exact ⟨some w, rfl⟩

lemma cuts_activation : (Scan.optional activation).Cuts fun x _ _ => ∃ word : Option String,
    x = (word.map String.toList).getD [] ∧
      ∀ w ∈ word, w ∈ ["--++", "++--", "++", "--", "**", "!!"] := by
  have hactivation : activation.Cuts fun x _ _ =>
      ∃ w ∈ ["--++", "++--", "++", "--", "**", "!!"], x = w.toList := by
    refine Cuts.anyOf fun p hp => ?_
    obtain ⟨w, hw, rfl⟩ := List.mem_map.1 hp
    exact (Cuts.literal w).imp fun x _ _ hx => ⟨w, hw, hx.2⟩
  refine hactivation.optional.imp ?_
  rintro x _ _ (⟨-, rfl⟩ | ⟨_, -, w, hw, rfl⟩)
  · exact ⟨none, rfl, nofun⟩
  · exact ⟨some w, rfl, fun v hv => Option.some.inj hv ▸ hw⟩

lemma cuts_labelAtEnd : labelAtEnd.Cuts fun x _ t => t = [] ∧ ∃ (gap : List Char)
    (label : Option (List Char)), x = gap ++ (label.map fun l => ':' :: l).getD [] ∧
      (∀ c ∈ gap, Letter.isBlank c = true) ∧ ∀ l ∈ label, '\n' ∉ Chars.trimLeft l := by
  have hlabel : (do
      let _ ← Scan.char ':'
      Scan.blanks
      Scan.many Scan.inLine : Scan String).Cuts fun x _ _ =>
        ∃ l, x = ':' :: l ∧ '\n' ∉ Chars.trimLeft l := by
    intro _ s next b hb
    obtain ⟨_, _, t, rfl, rfl, h₁⟩ := (Cuts.char ':').of_bind hb
    obtain ⟨gap, _, t, rfl, hgap, h₂⟩ := (Cuts.skip _).of_bind h₁
    obtain ⟨l, a, t, rfl, ⟨-, hl⟩, h₃⟩ := Cuts.many _ _ _ _ h₂
    refine ⟨':' :: (gap ++ l), a, t, by simp, ⟨gap ++ l, rfl, fun hmem => ?_⟩, h₃⟩
    rw [Chars.trimLeft, List.dropWhile_append_of_pos hgap] at hmem
    exact absurd (hl _ ((List.dropWhile_suffix _).subset hmem)) (by decide)
  intro _ s next b hb
  unfold labelAtEnd at hb
  obtain ⟨gap, _, t, rfl, hgap, h₁⟩ := (Cuts.skip _).of_bind hb
  obtain ⟨_, _, t, rfl, hx, h₂⟩ := hlabel.optional.of_bind h₁
  obtain ⟨_, _, t, rfl, ⟨rfl, ht⟩, h₃⟩ := (Cuts.ahead _).of_bind h₂
  rcases hx with ⟨-, rfl⟩ | ⟨_, -, l, rfl, hl⟩
  · exact ⟨gap, _, t, by simp, ⟨List.isEmpty_iff.1 ht, gap, none, by simp, hgap,
      fun l hl => absurd hl (Option.not_mem_none l)⟩, h₃⟩
  · exact ⟨gap ++ ':' :: l, _, t, by simp, ⟨List.isEmpty_iff.1 ht, gap, some l, rfl, hgap,
      fun _ h => Option.some.inj h ▸ hl⟩, h₃⟩

/-- Blanks behind a part that is not there belong to the part before. -/
lemma exists_messageEnd {gap gap' gap'' : List Char} (hgap : ∀ c ∈ gap, Letter.isBlank c = true)
    (hgap' : ∀ c ∈ gap', Letter.isBlank c = true) (hgap'' : ∀ c ∈ gap'', Letter.isBlank c = true)
    {word : Option String} (hword : ∀ w ∈ word, w ∈ ["--++", "++--", "++", "--", "**", "!!"])
    (color : Option WrittenColor) {label : Option (List Char)}
    (hlabel : ∀ l ∈ label, '\n' ∉ Chars.trimLeft l) :
    ∃ e : MessageEnd, gap ++ ((word.map String.toList).getD [] ++ (gap' ++
      ((color.map WrittenColor.chars).getD [] ++ (gap'' ++
        (label.map fun l => ':' :: l).getD [])))) = e.chars := by
  have hbehind : ∀ c ∈ gap' ++ gap'', Letter.isBlank c = true :=
    List.forall_mem_append.2 ⟨hgap', hgap''⟩
  have hfront : ∀ c ∈ gap ++ gap', Letter.isBlank c = true :=
    List.forall_mem_append.2 ⟨hgap, hgap'⟩
  have hall : ∀ c ∈ gap ++ (gap' ++ gap''), Letter.isBlank c = true :=
    List.forall_mem_append.2 ⟨hgap, hbehind⟩
  cases word with
  | none =>
    cases color with
    | none =>
      exact ⟨⟨⟨⟨label, hlabel⟩, none, nofun⟩, _, none, hall, nofun⟩, by
        simp [MessageEnd.chars, MessageEnd.tail, MessageEnd.activationChars, LineEnd.colorChars,
          LabelEnd.labelChars]⟩
    | some color =>
      exact ⟨⟨⟨⟨label, hlabel⟩, some (color, gap''), fun x hx => Option.some.inj hx ▸ hgap''⟩, _, none,
        hfront, nofun⟩, by
        simp [MessageEnd.chars, MessageEnd.tail, MessageEnd.activationChars, LineEnd.colorChars,
          LabelEnd.labelChars]⟩
  | some w =>
    have hw := hword w rfl
    cases color with
    | none =>
      exact ⟨⟨⟨⟨label, hlabel⟩, none, nofun⟩, gap, some (w, gap' ++ gap''), hgap,
        fun x hx => Option.some.inj hx ▸ ⟨hw, hbehind⟩⟩, by
        simp [MessageEnd.chars, MessageEnd.tail, MessageEnd.activationChars, LineEnd.colorChars,
          LabelEnd.labelChars]⟩
    | some color =>
      exact ⟨⟨⟨⟨label, hlabel⟩, some (color, gap''), fun x hx => Option.some.inj hx ▸ hgap''⟩, gap,
        some (w, gap'), hgap, fun x hx => Option.some.inj hx ▸ ⟨hw, hgap'⟩⟩, by
        simp [MessageEnd.chars, MessageEnd.tail, MessageEnd.activationChars, LineEnd.colorChars,
          LabelEnd.labelChars]⟩

/-- Nothing but the end of a message is read as one. -/
lemma cuts_messageEnd : messageEnd.Cuts fun x _ t => t = [] ∧ ∃ e : MessageEnd, x = e.chars := by
  intro _ s next b hb
  unfold messageEnd at hb
  obtain ⟨gap, _, t, rfl, hgap, h₁⟩ := (Cuts.skip _).of_bind hb
  obtain ⟨_, _, t, rfl, ⟨word, rfl, hword⟩, h₂⟩ := cuts_activation.of_bind h₁
  obtain ⟨gap', _, t, rfl, hgap', h₃⟩ := (Cuts.skip _).of_bind h₂
  obtain ⟨_, _, t, rfl, ⟨color, rfl⟩, h₄⟩ := cuts_color.of_bind h₃
  obtain ⟨_, _, t, rfl, ⟨ht, gap'', label, rfl, hgap'', hlabel⟩, h₅⟩ := cuts_labelAtEnd.of_bind h₄
  obtain ⟨e, he⟩ := exists_messageEnd hgap hgap' hgap'' hword color hlabel
  exact ⟨e.chars, _, t, by rw [← he]; simp, ⟨ht, e, rfl⟩, h₅⟩

end Line

namespace MessageText

lemma cuts_parallel : (Scan.optional Line.parallelMark).Cuts fun x _ _ =>
    ∃ p : Option (List Char), x = (p.map fun gap => '&' :: gap).getD [] ∧
      ∀ gap ∈ p, ∀ c ∈ gap, Letter.isBlank c = true := by
  have hmark : Line.parallelMark.Cuts fun x _ _ =>
      ∃ gap, x = '&' :: gap ∧ ∀ c ∈ gap, Letter.isBlank c = true := by
    intro _ s next b hb
    obtain ⟨_, _, t, rfl, rfl, h₁⟩ := (Cuts.char '&').of_bind hb
    obtain ⟨gap, _, t, rfl, hgap, h₂⟩ := Cuts.skip _ _ _ _ h₁
    exact ⟨'&' :: gap, (), t, rfl, ⟨gap, rfl, hgap⟩, h₂⟩
  refine hmark.optional.imp ?_
  rintro x _ _ (⟨-, rfl⟩ | ⟨_, -, gap, rfl, hgap⟩)
  · exact ⟨none, rfl, nofun⟩
  · exact ⟨some gap, rfl, fun _ h => Option.some.inj h ▸ hgap⟩

/-- A start mark right behind a plain name belongs to the name. -/
lemma exists_left (o : Operand) (gap : List Char) (a : WrittenArrow) (ha : 0 < a.before) :
    ∃ (o' : Operand) (a' : WrittenArrow),
      (∀ s, o.chars ++ (gap ++ (a.chars ++ s)) = o'.chars ++ (gap ++ (a'.chars ++ s))) ∧
        0 < a'.before ∧ a'.endMark = a.endMark ∧
          (a'.startMark ≠ none → gap = [] → o'.isQuoted = true) := by
  cases o with
  | quoted name ne_nil closed =>
    exact ⟨.quoted name ne_nil closed, a, fun _ => rfl, ha, rfl, fun _ _ => rfl⟩
  | plain name ne_nil word =>
    cases hmark : a.startMark with
    | none => exact ⟨.plain name ne_nil word, a, fun _ => rfl, ha, rfl, fun h => absurd hmark h⟩
    | some m =>
      cases gap with
      | cons c gap => exact ⟨.plain name ne_nil word, a, fun _ => rfl, ha, rfl, nofun⟩
      | nil =>
        have hm : Line.isNameChar m = true := by
          rcases a.startMark_mem m hmark with rfl | rfl <;> rfl
        refine ⟨.plain (name ++ [m]) (by simp) (List.forall_mem_append.2 ⟨word, by simpa using hm⟩),
          { a with startMark := none, startMark_mem := nofun }, fun s => ?_, ha, rfl,
          fun h => absurd rfl h⟩
        simp [Operand.chars, WrittenArrow.chars, WrittenArrow.front, WrittenArrow.back,
          WrittenArrow.bracketed, hmark]

/-- Every line that is read as a message is written as one. -/
theorem exists_chars {s : List Char} {l : Line} (h : Line.readMessage.whole s = some l) :
    ∃ w : MessageText, s = w.chars := by
  unfold Line.readMessage whole at h
  obtain ⟨_, _, t, rfl, ⟨parallel, rfl, hparallel⟩, h₁⟩ := cuts_parallel.of_bind h
  obtain ⟨_, _, t, rfl, ⟨left, rfl, -⟩, h₂⟩ := Operand.cuts_participant.of_bind h₁
  obtain ⟨leftGap, _, t, rfl, hleftGap, h₃⟩ := (Cuts.skip _).of_bind h₂
  obtain ⟨_, _, t, rfl, ⟨arrow, rfl, hpos, hend⟩, h₄⟩ := Line.cuts_arrow.of_bind h₃
  obtain ⟨rightGap, _, t, rfl, hrightGap, h₅⟩ := (Cuts.skip _).of_bind h₄
  obtain ⟨_, _, t, rfl, ⟨right, rfl, -⟩, h₆⟩ := Operand.cuts_participant.of_bind h₅
  obtain ⟨_, _, t, rfl, ⟨further, rfl⟩, h₇⟩ := Listed.cuts_writtenTargets.of_bind h₆
  obtain ⟨_, _, t, rfl, ⟨rfl, ending, rfl⟩, -⟩ := Line.cuts_messageEnd.of_bind h₇
  obtain ⟨left', arrow', hchars, hpos', hend', hleft'⟩ := exists_left left leftGap arrow hpos
  have hright : arrow'.endMark ≠ none → rightGap = [] → right.isQuoted = true := by
    intro hmark hgap
    cases right with
    | quoted name ne_nil closed => rfl
    | plain name ne_nil word =>
      obtain ⟨c, name, rfl⟩ := List.exists_cons_of_ne_nil ne_nil
      have hc := hend (hend' ▸ hmark) c (by rw [hgap]; rfl)
      rw [word c (List.mem_cons_self ..)] at hc
      cases hc
  refine ⟨⟨parallel, left', leftGap, arrow', rightGap, right, further, ending, hparallel, hleftGap,
    hrightGap, hpos', hleft', hright⟩, ?_⟩
  rw [hchars, List.append_nil]
  rfl

/-- The lines that are read as messages, and what they say. -/
theorem whole_readMessage_iff {s : List Char} {l : Line} :
    Line.readMessage.whole s = some l ↔ ∃ w : MessageText, s = w.chars ∧ l = .message w.line := by
  constructor
  · intro h
    obtain ⟨w, rfl⟩ := exists_chars h
    rw [w.whole_chars] at h
    exact ⟨w, rfl, (Option.some.inj h).symm⟩
  · rintro ⟨w, rfl, rfl⟩
    exact w.whole_chars

end MessageText

/-! ### Where an arrow ends -/

namespace WrittenArrow

/-- The characters that dashes and dressings are made of. -/
def isStroke (c : Char) : Bool :=
  c ∈ ['-', '<', '>', '/', '\\']

/-- The arrow without its end marks. -/
def core (a : WrittenArrow) : List Char :=
  a.left ++ List.replicate a.before '-' ++ (a.bracketed ++ (List.replicate a.after '-' ++ a.right))

lemma chars_append (a : WrittenArrow) (s : List Char) :
    a.chars ++ s = a.startMark.toList ++ (a.core ++ (a.endMark.toList ++ s)) := by
  simp only [chars, front, back, core, List.append_assoc]

lemma isStroke_dashes (n : Nat) : ∀ c ∈ List.replicate n '-', isStroke c = true := by
  intro c hc
  rw [List.eq_of_mem_replicate hc]
  rfl

lemma isStroke_front (a : WrittenArrow) :
    ∀ c ∈ a.left ++ List.replicate a.before '-', isStroke c = true := by
  have hleft : ∀ l ∈ [] :: Arrow.leftDressings, ∀ c ∈ l, isStroke c = true := by decide
  exact List.forall_mem_append.2 ⟨hleft a.left a.left_mem, isStroke_dashes _⟩

lemma isStroke_back (a : WrittenArrow) :
    ∀ c ∈ List.replicate a.after '-' ++ a.right, isStroke c = true := by
  have hright : ∀ r ∈ [] :: Arrow.rightDressings, ∀ c ∈ r, isStroke c = true := by decide
  exact List.forall_mem_append.2 ⟨isStroke_dashes _, hright a.right a.right_mem⟩

/-- Without a modifier all characters between the end marks are dashes and dressings. -/
lemma isStroke_core {a : WrittenArrow} (h : a.modifier = none) :
    ∀ c ∈ a.core, isStroke c = true := by
  rw [core, bracketed, h]
  exact List.forall_mem_append.2 ⟨a.isStroke_front, a.isStroke_back⟩

lemma core_append {a : WrittenArrow} {inner : List Char} (h : a.modifier = some inner)
    (s : List Char) : a.core ++ s = a.left ++ List.replicate a.before '-' ++
      '[' :: (inner ++ ']' :: (List.replicate a.after '-' ++ a.right ++ s)) := by
  simp [core, bracketed, h]

/-- The text goes on with no stroke and no modifier. -/
def Ends (s : List Char) : Prop :=
  ∀ c ∈ s.head?, isStroke c = false ∧ c ≠ '['

lemma ends_of_mark {m : Option Char} (hm : ∀ c ∈ m, c = 'o' ∨ c = 'x') {s : List Char}
    (hs : Ends s) : Ends (m.toList ++ s) := by
  cases m with
  | none => exact hs
  | some d =>
    intro c hc
    obtain rfl : d = c := Option.some.inj hc
    rcases hm d rfl with rfl | rfl <;> decide

/-- What stands behind an arrow is known from the text: the strokes end at one place, and a modifier
ends with its first closing bracket. -/
lemma eq_of_core_append {a b : WrittenArrow} {s t : List Char} (hs : Ends s) (ht : Ends t)
    (h : a.core ++ s = b.core ++ t) : s = t := by
  have hbracket (u : List Char) : ∀ c ∈ ('[' :: u).head?, isStroke c = false := by
    intro c hc
    obtain rfl : '[' = c := Option.some.inj hc
    rfl
  have hstroke {u : List Char} (hu : Ends u) : ∀ c ∈ u.head?, isStroke c = false :=
    fun c hc => (hu c hc).1
  cases ha : a.modifier with
  | none =>
    cases hb : b.modifier with
    | none =>
      exact Chars.eq_of_append_run (isStroke_core ha) (isStroke_core hb) (hstroke hs) (hstroke ht) h
    | some inner =>
      rw [core_append hb] at h
      -- the modifier of the second arrow would stand behind the first one
      obtain rfl := Chars.eq_of_append_run (isStroke_core ha) b.isStroke_front (hstroke hs)
        (hbracket _) h
      exact absurd rfl (hs '[' rfl).2
  | some inner =>
    rw [core_append ha] at h
    cases hb : b.modifier with
    | none =>
      obtain rfl := Chars.eq_of_append_run a.isStroke_front (isStroke_core hb) (hbracket _)
        (hstroke ht) h
      exact absurd rfl (ht '[' rfl).2
    | some inner' =>
      rw [core_append hb] at h
      have hinner := (List.cons.inj (Chars.eq_of_append_run a.isStroke_front b.isStroke_front
        (hbracket _) (hbracket _) h)).2
      obtain rfl := Chars.eq_of_append_stop (a.modifier_closed inner ha)
        (b.modifier_closed inner' hb) hinner
      exact Chars.eq_of_append_run a.isStroke_back b.isStroke_back (hstroke hs) (hstroke ht)
        (List.cons.inj (List.append_cancel_left hinner)).2

/-- The same with the end marks: what follows the one at the start is no mark. -/
lemma eq_of_chars_append {a b : WrittenArrow} (ha : 0 < a.before) (hb : 0 < b.before)
    {s t : List Char} (hs : Ends s) (ht : Ends t) (h : a.chars ++ s = b.chars ++ t) :
    a.endMark.toList ++ s = b.endMark.toList ++ t := by
  have hmark {m : Option Char} (hm : ∀ c ∈ m, c = 'o' ∨ c = 'x') :
      ∀ c ∈ m.toList, (c == 'o' || c == 'x') = true := by
    intro c hc
    rcases hm c (Option.mem_toList.1 hc) with rfl | rfl <;> rfl
  have hhead {a : WrittenArrow} (ha : 0 < a.before) (u : List Char) :
      ∀ c ∈ (a.core ++ u).head?, (c == 'o' || c == 'x') = false := by
    have hne : a.left ++ List.replicate a.before '-' ≠ [] :=
      List.append_ne_nil_of_right_ne_nil _ (by rw [ne_eq, List.replicate_eq_nil_iff]; omega)
    obtain ⟨d, front, hfront⟩ := List.exists_cons_of_ne_nil hne
    intro c hc
    rw [core, hfront] at hc
    obtain rfl : d = c := Option.some.inj hc
    have hd := a.isStroke_front d (hfront ▸ List.mem_cons_self ..)
    cases hmark : d == 'o' || d == 'x' with
    | false => rfl
    | true =>
      rw [Bool.or_eq_true, beq_iff_eq, beq_iff_eq] at hmark
      rcases hmark with rfl | rfl <;> cases hd
  rw [chars_append, chars_append] at h
  exact eq_of_core_append (ends_of_mark a.endMark_mem hs) (ends_of_mark b.endMark_mem ht)
    (Chars.eq_of_append_run (hmark a.startMark_mem) (hmark b.startMark_mem) (hhead ha _)
      (hhead hb _) h)

end WrittenArrow

/-! ### Messages at the border -/

namespace MessageText

variable (w : MessageText)

/-- No arrow goes on with a character that is a blank, a mark of the border or part of a
participant. -/
lemma ends_of_head {s : List Char} (h : ∀ c ∈ s.head?, c = '"' ∨ c = ']' ∨ c = '?' ∨
    Letter.isBlank c = true ∨ Line.isNameChar c = true) : WrittenArrow.Ends s := by
  have hstrokes : ∀ d ∈ ['-', '<', '>', '/', '\\', '['], d ≠ '"' ∧ d ≠ ']' ∧ d ≠ '?' ∧
      Letter.isBlank d = false ∧ Line.isNameChar d = false := by
    decide
  intro c hc
  have hmem : c ∉ ['-', '<', '>', '/', '\\', '['] := by
    intro hmem
    obtain ⟨hquote, hbracket, hquestion, hblank, hname⟩ := hstrokes c hmem
    rcases h c hc with h | h | h | h | h
    · exact hquote h
    · exact hbracket h
    · exact hquestion h
    · rw [hblank] at h
      cases h
    · rw [hname] at h
      cases h
  exact ⟨decide_eq_false fun h => hmem (List.mem_append_left ['['] h),
    fun h => hmem (h ▸ List.mem_append_right ['-', '<', '>', '/', '\\'] (List.mem_singleton.2 rfl))⟩

lemma eq_of_parallel {p p' : Option (List Char)}
    (hp : ∀ gap ∈ p, ∀ c ∈ gap, Letter.isBlank c = true)
    (hp' : ∀ gap ∈ p', ∀ c ∈ gap, Letter.isBlank c = true) {s t : List Char}
    (hs : ∀ c ∈ s.head?, c ≠ '&' ∧ Letter.isBlank c = false)
    (ht : ∀ c ∈ t.head?, c ≠ '&' ∧ Letter.isBlank c = false)
    (h : (p.map fun gap => '&' :: gap).getD [] ++ s = (p'.map fun gap => '&' :: gap).getD [] ++ t) :
    s = t := by
  have hrun {p : Option (List Char)} (hp : ∀ gap ∈ p, ∀ c ∈ gap, Letter.isBlank c = true) :
      ∀ c ∈ (p.map fun gap => '&' :: gap).getD [], (c == '&' || Letter.isBlank c) = true := by
    cases p with
    | none => exact List.forall_mem_nil _
    | some gap =>
      exact List.forall_mem_cons.2 ⟨rfl, fun c hc => Bool.or_eq_true_iff.2 (.inr (hp gap rfl c hc))⟩
  have hstop {u : List Char} (hu : ∀ c ∈ u.head?, c ≠ '&' ∧ Letter.isBlank c = false) :
      ∀ c ∈ u.head?, (c == '&' || Letter.isBlank c) = false := fun c hc =>
    Bool.or_eq_false_iff.2 ⟨beq_eq_false_iff_ne.2 (hu c hc).1, (hu c hc).2⟩
  exact Chars.eq_of_append_run (hrun hp) (hrun hp') (hstop hs) (hstop ht) h

/-- The participant behind the arrow is no mark of the border, and no end mark before one. -/
lemma ne_border_behind {m : Option Char} (hm : ∀ c ∈ m, c = 'o' ∨ c = 'x') {gap : List Char}
    (hgap : ∀ c ∈ gap, Letter.isBlank c = true) {c : Char} (hc : c = ']' ∨ c = '?')
    (t : List Char) :
    w.arrow.endMark.toList ++ (w.rightGap ++ (w.right.chars ++ w.behind)) ≠
      m.toList ++ (gap ++ c :: t) := by
  obtain ⟨hblank, hname, hquote⟩ :
      Letter.isBlank c = false ∧ Line.isNameChar c = false ∧ c ≠ '"' := by
    rcases hc with rfl | rfl <;> decide
  have hstop : ∀ d ∈ (c :: t).head?, Letter.isBlank d = false :=
    fun d hd => Option.some.inj hd ▸ hblank
  have hoperand : w.rightGap ++ (w.right.chars ++ w.behind) ≠ gap ++ c :: t := by
    intro h
    have hright := Chars.eq_of_append_run w.rightGap_blank hgap (w.right.not_isBlank_head_chars _)
      hstop h
    rcases w.right.head_chars w.behind c (by rw [hright]; rfl) with h | h
    · exact hquote h
    · rw [hname] at h
      cases h
  intro h
  cases hmark : w.arrow.endMark with
  | none =>
    rw [hmark] at h
    cases m with
    | none => exact hoperand h
    | some d =>
      -- the participant is called like an end mark, but no mark of the border stands behind it
      have hbehind := Line.eq_of_endMark w.rightGap_blank (hm d rfl)
        (Line.not_isNameChar_gap hgap (s := c :: t) fun e he => Option.some.inj he ▸ hname) h
      obtain ⟨gap', u, hu, hgap', hhead⟩ := w.exists_gap_behind
      rw [hu] at hbehind
      have hrest := Chars.eq_of_append_run hgap hgap' hstop
        (fun e he => (ne_operand (hhead e he)).2.2) hbehind
      have hmem := hhead c (by rw [← hrest]; rfl)
      rcases hc with rfl | rfl <;> exact absurd hmem (by decide)
  | some e =>
    rw [hmark] at h
    cases m with
    | some d => exact hoperand (List.cons.inj h).2
    | none =>
      have he := w.arrow.endMark_mem e hmark
      cases gap with
      | nil =>
        obtain rfl : e = c := (List.cons.inj h).1
        rcases hc with rfl | rfl <;> exact absurd he (by decide)
      | cons b gap =>
        obtain rfl : e = b := (List.cons.inj h).1
        have heblank := hgap e (List.mem_cons_self ..)
        rcases he with rfl | rfl <;> cases heblank

lemma whole_borderLeft : Line.readBorderLeft.whole w.chars = none := by
  by_contra hsome
  obtain ⟨l, hl⟩ := Option.ne_none_iff_exists'.1 hsome
  unfold Line.readBorderLeft whole at hl
  obtain ⟨_, _, t, hchars, ⟨parallel, rfl, hparallel⟩, h₁⟩ := cuts_parallel.of_bind hl
  obtain ⟨_, c, t, rfl, ⟨rfl, hc⟩, -⟩ := (Cuts.satisfy _).of_bind h₁
  rw [Bool.or_eq_true, beq_iff_eq, beq_iff_eq] at hc
  have hhead : ∀ d ∈ ([c] ++ t).head?, d ≠ '&' ∧ Letter.isBlank d = false := by
    intro d hd
    obtain rfl : c = d := Option.some.inj hd
    rcases hc with rfl | rfl <;> decide
  have hleft := eq_of_parallel w.parallel_blank hparallel (w.left.ne_head_chars _) hhead hchars
  rcases w.left.head_chars _ c (by rw [hleft]; rfl) with h | h
  · rcases hc with rfl | rfl <;> cases h
  · rcases hc with rfl | rfl <;> cases h

lemma whole_borderRight : Line.readBorderRight.whole w.chars = none := by
  by_contra hsome
  obtain ⟨l, hl⟩ := Option.ne_none_iff_exists'.1 hsome
  unfold Line.readBorderRight whole at hl
  obtain ⟨_, _, t, hchars, ⟨parallel, rfl, hparallel⟩, h₁⟩ := cuts_parallel.of_bind hl
  obtain ⟨_, _, t, rfl, ⟨left, rfl, -⟩, h₂⟩ := Operand.cuts_participant.of_bind h₁
  obtain ⟨leftGap, _, t, rfl, hleftGap, h₃⟩ := (Cuts.skip _).of_bind h₂
  obtain ⟨_, _, t, rfl, ⟨arrow, rfl, hpos, -⟩, h₄⟩ := Line.cuts_arrow.of_bind h₃
  obtain ⟨rightGap, _, t, rfl, hrightGap, h₅⟩ := (Cuts.skip _).of_bind h₄
  obtain ⟨_, c, t, rfl, ⟨rfl, hc⟩, -⟩ := (Cuts.satisfy _).of_bind h₅
  rw [Bool.or_eq_true, beq_iff_eq, beq_iff_eq] at hc
  obtain ⟨left', arrow', hnormal, hpos', -, hleft'⟩ := exists_left left leftGap arrow hpos
  rw [hnormal] at hchars
  -- both cuts of the line agree part by part, up to the end marks of the arrows
  have hoperands := eq_of_parallel w.parallel_blank hparallel (w.left.ne_head_chars _)
    (left'.ne_head_chars _) hchars
  have hgaps := Operand.eq_of_chars_append
    (Operand.apart_arrow w.leftGap_blank w.before_pos w.left_apart _)
    (Operand.apart_arrow hleftGap hpos' hleft' _) hoperands
  have hblank {a : WrittenArrow} (ha : 0 < a.before) (s : List Char) :
      ∀ d ∈ (a.chars ++ s).head?, Letter.isBlank d = false :=
    fun d hd => WrittenArrow.isBlank_of_isOutside (a.isOutside_head ha d hd)
  have harrows := Chars.eq_of_append_run w.leftGap_blank hleftGap (hblank w.before_pos _)
    (hblank hpos' _) hgaps
  have hright : WrittenArrow.Ends (w.rightGap ++ (w.right.chars ++ w.behind)) :=
    ends_of_head fun d hd => (w.right.head_gap_chars w.rightGap_blank _ d hd).imp_right
      fun h => .inr (.inr h)
  have hborder : WrittenArrow.Ends (rightGap ++ ([c] ++ t)) := by
    refine ends_of_head fun d hd => .inr ?_
    cases rightGap with
    | nil =>
      obtain rfl : c = d := Option.some.inj hd
      exact hc.imp_right .inl
    | cons b gap =>
      exact .inr (.inr (.inl (Option.some.inj hd ▸ hrightGap b (List.mem_cons_self ..))))
  exact w.ne_border_behind arrow'.endMark_mem hrightGap hc t
    (WrittenArrow.eq_of_chars_append w.before_pos hpos' hright hborder harrows)

end MessageText

end Sequence
end UmlDraw
