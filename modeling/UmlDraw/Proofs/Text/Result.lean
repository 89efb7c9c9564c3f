/-
# What a scan can result in

A scan hands a result to what follows, and it succeeds only if what follows does.  Nothing in the
type of scans says so, but every scan that is made of the usual parts is honest in this sense.  So
what a line can mean is known from the last step of each of its forms.

The main statements are

* `Scan.Yields.bind`: the results of a scan that goes on behind an honest one;
* `Scan.Yields.of_whole`: what a whole text is read as;
* `Link.honest_scan` and `NoteLine.honest_scan`: links and notes.
-/
import Mathlib.Tactic.Lemma
import UmlDraw.Relation.Link
import UmlDraw.Relation.Note
import UmlDraw.Source.Decoration
import UmlDraw.Source.Keyword
import UmlDraw.Source.Name

namespace UmlDraw
namespace Scan

variable {α β : Type}

/-- What follows the scan can only succeed on a result with the given property. -/
def Yields (p : Scan α) (Q : α → Prop) : Prop :=
  ∀ ⦃β : Type⦄ (s : List Char) (next : α → List Char → Option β) (b : β),
    p.run s next = some b → ∃ a t, Q a ∧ next a t = some b

/-- The scan succeeds only if what follows does. -/
class Honest (p : Scan α) : Prop where
  yields : p.Yields fun _ => True

namespace Yields

variable {p q : Scan α} {f : α → Scan β} {Q Q' : α → Prop} {R : β → Prop}

lemma honest (h : p.Yields Q) : p.Honest := by
  refine ⟨fun _ s next b hb => ?_⟩
  obtain ⟨a, t, -, hnext⟩ := h s next b hb
  exact ⟨a, t, trivial, hnext⟩

lemma imp (h : p.Yields Q) (hQ : ∀ a, Q a → Q' a) : p.Yields Q' := by
  intro _ s next b hb
  obtain ⟨a, t, ha, hnext⟩ := h s next b hb
  exact ⟨a, t, hQ a ha, hnext⟩

lemma pure {a : α} (h : Q a) : (Pure.pure a : Scan α).Yields Q :=
  fun _ s _ _ hb => ⟨a, s, h, hb⟩

/-- The results of the last scan, whose properties may depend on earlier results. -/
lemma bindOf (hp : p.Yields Q) (hf : ∀ a, Q a → (f a).Yields R) : (p >>= f).Yields R := by
  intro _ s next b hb
  obtain ⟨a, t, ha, hnext⟩ := hp s _ b hb
  exact hf a ha t next b hnext

lemma bind [hp : p.Honest] (hf : ∀ a, (f a).Yields R) : (p >>= f).Yields R :=
  hp.yields.bindOf fun a _ => hf a

lemma either (hp : p.Yields Q) (hq : q.Yields Q) : (Scan.either p q).Yields Q := by
  intro _ s next b hb
  unfold Scan.either at hb
  dsimp only at hb
  split at hb
  · next b' hb' => exact hp s next b (hb'.trans hb)
  · exact hq s next b hb

lemma anyOf {ps : List (Scan α)} (h : ∀ p ∈ ps, p.Yields Q) : (Scan.anyOf ps).Yields Q := by
  induction ps with
  | nil => exact fun _ _ _ _ hb => nomatch hb
  | cons p ps ih =>
    obtain ⟨hp, hps⟩ := List.forall_mem_cons.1 h
    exact hp.either (ih hps)

lemma optional (h : p.Yields Q) : (Scan.optional p).Yields fun r => ∀ a, r = some a → Q a := by
  refine Yields.either ?_ (Yields.pure nofun)
  exact h.bindOf fun a ha => Yields.pure fun b hb => Option.some.inj hb ▸ ha

lemma map {g : α → β} (h : p.Yields fun a => R (g a)) : (g <$> p).Yields R :=
  h.bindOf fun _ ha => Yields.pure ha

lemma withText (h : p.Yields Q) : (Scan.withText p).Yields fun r => Q r.1 := by
  intro _ s next b hb
  obtain ⟨a, t, ha, hnext⟩ := h s _ b hb
  exact ⟨_, t, ha, hnext⟩

/-- What a whole text is read as. -/
lemma of_whole (h : p.Yields Q) {s : List Char} {a : α} (ha : p.whole s = some a) : Q a := by
  obtain ⟨a', t, ha', hnext⟩ := h s _ a ha
  split at hnext
  · exact Option.some.inj hnext ▸ ha'
  · cases hnext

end Yields

/-! ### Honest scans -/

namespace Honest

variable {p q : Scan α} {f : α → Scan β}

instance pure (a : α) : (Pure.pure a : Scan α).Honest :=
  (Yields.pure (Q := fun _ => True) trivial).honest

instance bind [p.Honest] [hf : ∀ a, (f a).Honest] : (p >>= f).Honest :=
  ⟨Yields.bind fun a => (hf a).yields⟩

instance map [p.Honest] (g : α → β) : (g <$> p).Honest :=
  inferInstanceAs (p >>= fun a => Pure.pure (g a) : Scan β).Honest

instance either [hp : p.Honest] [hq : q.Honest] : (Scan.either p q).Honest :=
  ⟨hp.yields.either hq.yields⟩

lemma anyOf {ps : List (Scan α)} (h : ∀ p ∈ ps, p.Honest) : (Scan.anyOf ps).Honest :=
  ⟨Yields.anyOf fun p hp => (h p hp).yields⟩

instance anyOf_nil : (Scan.anyOf ([] : List (Scan α))).Honest :=
  anyOf (List.forall_mem_nil _)

instance anyOf_cons {ps : List (Scan α)} [p.Honest] [(Scan.anyOf ps).Honest] :
    (Scan.anyOf (p :: ps)).Honest :=
  inferInstanceAs (Scan.either p (Scan.anyOf ps)).Honest

instance optional [p.Honest] : (optional p).Honest :=
  inferInstanceAs (Scan.either (some <$> p) (Pure.pure none)).Honest

instance satisfy (c : Char → Bool) : (satisfy c).Honest := by
  refine ⟨fun _ s next b hb => ?_⟩
  cases s with
  | nil => cases hb
  | cons d s =>
    unfold Scan.satisfy at hb
    dsimp only at hb
    split at hb
    · exact ⟨d, s, trivial, hb⟩
    · cases hb

instance char (c : Char) : (char c).Honest :=
  inferInstanceAs (Scan.satisfy _).Honest

instance ahead (c : List Char → Bool) : (ahead c).Honest := by
  refine ⟨fun _ s next b hb => ?_⟩
  unfold Scan.ahead at hb
  dsimp only at hb
  split at hb
  · exact ⟨(), s, trivial, hb⟩
  · cases hb

instance atEnd : atEnd.Honest :=
  inferInstanceAs (Scan.ahead _).Honest

instance wordEnd : wordEnd.Honest :=
  inferInstanceAs (Scan.ahead _).Honest

instance fail : (fail : Scan α).Honest :=
  ⟨fun _ _ _ _ hb => nomatch hb⟩

instance require (b : Bool) : (require b).Honest := by
  cases b with
  | true => exact Honest.pure ()
  | false => exact ⟨fun _ _ _ _ hb => nomatch hb⟩

instance chars : (cs : List Char) → (chars cs).Honest
  | [] => Honest.pure ()
  | c :: cs => by
    have := chars cs
    unfold Scan.chars
    infer_instance

instance text (s : String) : (text s).Honest :=
  inferInstanceAs (Scan.chars s.toList).Honest

instance spelled : (cs : List Char) → (spelled cs).Honest
  | [] => Honest.pure []
  | c :: cs => by
    have := spelled cs
    unfold Scan.spelled
    infer_instance

instance keyword (word : String) : (keyword word).Honest := by
  unfold Scan.keyword
  infer_instance

instance oneOf (words : List String) : (oneOf words).Honest := by
  have : (Scan.anyOf (words.map fun word => Scan.spelled word.toList)).Honest := by
    refine anyOf fun p hp => ?_
    obtain ⟨word, -, rfl⟩ := List.mem_map.1 hp
    infer_instance
  unfold Scan.oneOf
  infer_instance

/-- A success of a greedy run is one of what follows it. -/
lemma exists_of_longest {c : Char → Bool} {next : List Char → List Char → Option β}
    {seen s : List Char} {b : β} (h : longest c next seen s = some b) :
    ∃ seen' t, next seen' t = some b := by
  induction s generalizing seen with
  | nil => exact ⟨seen, [], h⟩
  | cons d s ih =>
    rw [longest] at h
    split at h
    · split at h
      · next b' hb' => exact ih (hb'.trans h)
      · exact ⟨seen, d :: s, h⟩
    · exact ⟨seen, d :: s, h⟩

/-- A success of a lazy run is one of what follows it. -/
lemma exists_of_shortest {c : Char → Bool} {next : List Char → List Char → Option β}
    {seen s : List Char} {b : β} (h : shortest c next seen s = some b) :
    ∃ seen' t, next seen' t = some b := by
  induction s generalizing seen with
  | nil => exact ⟨seen, [], h⟩
  | cons d s ih =>
    rw [shortest] at h
    split at h
    · next b' hb' => exact ⟨seen, d :: s, hb'.trans h⟩
    · split at h
      · exact ih h
      · cases h

instance many (c : Char → Bool) : (many c).Honest := by
  refine ⟨fun _ s next b hb => ?_⟩
  obtain ⟨seen, t, hnext⟩ := exists_of_longest hb
  exact ⟨_, t, trivial, hnext⟩

instance many1 (c : Char → Bool) : (many1 c).Honest := by
  refine ⟨fun _ s next b hb => ?_⟩
  unfold Scan.many1 at hb
  dsimp only at hb
  split at hb
  · cases hb
  · split at hb
    · obtain ⟨seen, t, hnext⟩ := exists_of_longest hb
      exact ⟨_, t, trivial, hnext⟩
    · cases hb

instance run1 (c : Char → Bool) : (run1 c).Honest := by
  refine ⟨fun _ s next b hb => ?_⟩
  unfold Scan.run1 at hb
  dsimp only at hb
  split at hb
  · cases hb
  · exact ⟨_, _, trivial, hb⟩

instance few1 (c : Char → Bool) : (few1 c).Honest := by
  refine ⟨fun _ s next b hb => ?_⟩
  unfold Scan.few1 at hb
  dsimp only at hb
  split at hb
  · cases hb
  · split at hb
    · obtain ⟨seen, t, hnext⟩ := exists_of_shortest hb
      exact ⟨_, t, trivial, hnext⟩
    · cases hb

instance few (c : Char → Bool) : (few c).Honest := by
  refine ⟨fun _ s next b hb => ?_⟩
  obtain ⟨seen, t, hnext⟩ := exists_of_shortest hb
  exact ⟨_, t, trivial, hnext⟩

instance skip (c : Char → Bool) : (skip c).Honest := by
  refine ⟨fun _ s next b hb => ?_⟩
  obtain ⟨-, t, hnext⟩ := exists_of_longest hb
  exact ⟨(), t, trivial, hnext⟩

instance skipFew (c : Char → Bool) : (skipFew c).Honest := by
  refine ⟨fun _ s next b hb => ?_⟩
  obtain ⟨-, t, hnext⟩ := exists_of_shortest hb
  exact ⟨(), t, trivial, hnext⟩

instance skip1 (c : Char → Bool) : (skip1 c).Honest := by
  unfold Scan.skip1
  infer_instance

instance skipFew1 (c : Char → Bool) : (skipFew1 c).Honest := by
  unfold Scan.skipFew1
  infer_instance

instance blanks : blanks.Honest :=
  inferInstanceAs (Scan.skip _).Honest

instance blanks1 : blanks1.Honest :=
  inferInstanceAs (Scan.skip1 _).Honest

instance present [p.Honest] : (present p).Honest :=
  inferInstanceAs (Scan.either ((fun _ => true) <$> p) (Pure.pure false)).Honest

instance upTo [p.Honest] : (n : Nat) → (upTo p n).Honest
  | 0 => Honest.pure []
  | n + 1 => by
    have := upTo n
    unfold Scan.upTo
    infer_instance

instance repeated [p.Honest] : (repeated p).Honest :=
  ⟨fun _ s next b hb => (upTo (p := p) s.length).yields s next b hb⟩

instance withText [hp : p.Honest] : (withText p).Honest :=
  ⟨hp.yields.withText⟩

instance captured [p.Honest] : (captured p).Honest := by
  unfold Scan.captured
  infer_instance

instance literal (s : String) : (literal s).Honest := by
  unfold Scan.literal
  infer_instance

instance lastly [p.Honest] : (lastly p).Honest := by
  unfold Scan.lastly
  infer_instance

end Honest
end Scan

/-! ### The parts that lines are made of -/

namespace Token

open Scan

instance : plainColor.Honest := by
  unfold plainColor
  infer_instance

instance : color.Honest := by
  unfold color
  infer_instance

instance : quoted.Honest := by
  unfold quoted
  infer_instance

instance : anyQuoted.Honest := by
  unfold anyQuoted
  infer_instance

instance : code.Honest :=
  inferInstanceAs (Scan.many1 _).Honest

instance : asWord.Honest := by
  unfold asWord
  infer_instance

instance : inParentheses.Honest := by
  unfold inParentheses
  infer_instance

instance : lineEnd.Honest := by
  unfold lineEnd
  infer_instance

instance : rest.Honest := by
  unfold rest
  infer_instance

instance : rest1.Honest := by
  unfold rest1
  infer_instance

instance : labelAtEnd.Honest := by
  unfold labelAtEnd
  infer_instance

instance honest_keywords (between : Scan Unit) [between.Honest] :
    (words : List String) → (keywords between words).Honest
  | [] => Honest.pure ()
  | [w] => inferInstanceAs (Scan.keyword w).Honest
  | w :: w' :: ws => by
    have := honest_keywords between (w' :: ws)
    unfold keywords
    infer_instance

instance (words : List String) : (phrase words).Honest :=
  inferInstanceAs (keywords _ words).Honest

instance (words : List String) : (joined words).Honest :=
  inferInstanceAs (keywords _ words).Honest

instance : title.Honest := by
  unfold title
  infer_instance

end Token

open Scan

instance Keyword.honest_scan {α : Type} (table : List (List String × α)) :
    (Keyword.scan table).Honest := by
  have : (Scan.anyOf (table.map fun (words, _) => Scan.captured (Token.phrase words))).Honest := by
    refine Honest.anyOf fun p hp => ?_
    obtain ⟨⟨words, a⟩, -, rfl⟩ := List.mem_map.1 hp
    infer_instance
  unfold Keyword.scan
  infer_instance

instance Decoration.honest_writtenStereotype : Decoration.writtenStereotype.Honest := by
  unfold Decoration.writtenStereotype
  infer_instance

namespace Name

instance : quotedAsCode.Honest := by
  unfold quotedAsCode
  infer_instance

instance : codeAsQuoted.Honest := by
  unfold codeAsQuoted
  infer_instance

instance : plainAsCode.Honest := by
  unfold plainAsCode
  infer_instance

instance : quotedAlone.Honest := by
  unfold quotedAlone
  infer_instance

instance : codeAlone.Honest := by
  unfold codeAlone
  infer_instance

end Name
end UmlDraw

/-! ## Links and notes as results of scans

The scans of links and notes are honest: they succeed only if what follows them does. -/

namespace UmlDraw

open Scan

namespace Link

variable {shape : Scan String} {body : Scan Unit}

instance honest_writtenMark (spellings : List (String × EndMark)) :
    (writtenMark spellings).Honest := by
  have : (Scan.anyOf (spellings.map fun (s, _) => Scan.keyword s)).Honest := by
    refine Honest.anyOf fun p hp => ?_
    obtain ⟨⟨s, m⟩, -, rfl⟩ := List.mem_map.1 hp
    infer_instance
  unfold writtenMark
  infer_instance

instance honest_modifier : modifier.Honest := by
  unfold modifier
  infer_instance

instance honest_qualifier : qualifier.Honest := by
  unfold qualifier
  infer_instance

instance honest_turn [body.Honest] : (turn body).Honest := by
  unfold turn
  infer_instance

instance honest_scan [shape.Honest] [body.Honest] (qualified : Bool) :
    (scan shape body qualified).Honest := by
  unfold scan
  constructor
  iterate 14 refine Yields.bind fun _ => ?_
  split
  exact Yields.pure trivial

end Link

namespace NoteLine

variable {shape color : Scan String}

instance honest_side : side.Honest := by
  unfold side
  infer_instance

instance honest_beside [shape.Honest] [color.Honest] : (beside shape color).Honest := by
  unfold beside
  constructor
  iterate 9 refine Yields.bind fun _ => ?_
  exact Yields.pure trivial

instance honest_onLink [color.Honest] : (onLink color).Honest := by
  unfold onLink
  constructor
  iterate 6 refine Yields.bind fun _ => ?_
  exact Yields.pure trivial

instance honest_withText {head : Scan Note} [head.Honest] : (withText head).Honest := by
  unfold withText
  infer_instance

instance honest_withoutText {head : Scan Note} [head.Honest] : (withoutText head).Honest := by
  unfold withoutText
  infer_instance

instance honest_freeNote [color.Honest] : (freeNote color).Honest := by
  unfold freeNote
  constructor
  iterate 8 refine Yields.bind fun _ => ?_
  exact Yields.pure trivial

instance honest_freeNoteStart [color.Honest] : (freeNoteStart color).Honest := by
  unfold freeNoteStart
  infer_instance

instance honest_scan [shape.Honest] [color.Honest] : (scan shape color).Honest := by
  refine Honest.anyOf fun p hp => ?_
  simp only [List.mem_cons, List.not_mem_nil, or_false] at hp
  rcases hp with rfl | rfl | rfl | rfl | rfl | rfl <;> infer_instance

end NoteLine
end UmlDraw
