/-
# The returns of a sequence diagram

A return has to pick the bar that it ends, and its arrow goes from the participant of that bar to the
caller.  The sheet picks by height: of the top bars of the columns, from left to right, each one
counts that starts no higher than the one before that counted.  This gives the bar that was opened
latest as long as that bar *stands out*, which fails where a bar further right starts at the same
height, or an earlier bar starts further down.

The main statements are

* `Sequence.lowest_eq_some_iff`: which top bar a return picks;
* `Sequence.Sheet.Follows.reply`: a return ends the bar that it picks, and goes to the caller;
* `Sequence.turns_head_iff`: when each return ends the bar that was opened latest;
* `Sequence.Diagram.returns_read`.
-/
import Mathlib.Data.List.Induction
import UmlDraw.Proofs.Sequence.Pile

namespace UmlDraw
namespace Sequence

/-- Whom a return from a bar goes to: the caller of the bar; if it has none but its own participant,
another participant, if there is one. -/
def receiver (codes : List String) (code : String) (bar : Bar) : String :=
  match bar.caller with
  | some caller => if caller == code then (codes.find? (· != code)).getD code else caller
  | none => (codes.find? (· != code)).getD code

/-- What becomes of a leaf. -/
structure Turn where
  /-- The leaf. -/
  leaf : Element
  /-- The pile before it. -/
  before : List (String × Bar)
  /-- The leaf as it is drawn, if it is: a return with the ends that it gets. -/
  drawn : List Element
  /-- The bars that are closed. -/
  closed : List (String × Bar)
  /-- The pile behind it. -/
  after : List (String × Bar)

/-- What may become of a leaf behind a last message, if a return picks its bar from the pile in the
given way.  While no bar is open, a return goes back along the last message. -/
inductive Turn.Fits (pick : List (String × Bar) → Option (String × Bar)) (codes : List String)
    (last : Option (String × String)) : Turn → Prop
  | plain {pile pile' : List (String × Bar)} {e : Element} :
      e.isReturn = false → e.Loads last pile pile' →
      Turn.Fits pick codes last ⟨e, pile, [e], e.ending.closed pile', e.ending.left pile'⟩
  | answered {pile : List (String × Bar)} {m : Message} {code : String} {bar : Bar} :
      m.isReturn = true → pick pile = some (code, bar) →
      Turn.Fits pick codes last ⟨.message m, pile,
        [.message { m with source := code, target := receiver codes code bar }],
        (Ending.latest code).closed pile, (Ending.latest code).left pile⟩
  | echoed {m : Message} : m.isReturn = true →
      Turn.Fits pick codes last ⟨.message m, [],
        (last.map fun ends => .message { m with source := ends.2, target := ends.1 }).toList,
        [], []⟩

/-- The turns of leaves one after the other, and the pile behind them. -/
inductive Turns (pick : List (String × Bar) → Option (String × Bar)) (codes : List String) :
    List Turn → List (String × Bar) → Prop
  | nil : Turns pick codes [] []
  | concat {log : List Turn} {t : Turn} : Turns pick codes log t.before →
      t.Fits pick codes (endsAll (log.flatMap Turn.drawn)) → Turns pick codes (log ++ [t]) t.after

lemma turns_concat_iff {pick : List (String × Bar) → Option (String × Bar)} {codes : List String}
    {log : List Turn} {t : Turn} {pile : List (String × Bar)} :
    Turns pick codes (log ++ [t]) pile ↔ Turns pick codes log t.before ∧
      t.Fits pick codes (endsAll (log.flatMap Turn.drawn)) ∧ pile = t.after := by
  constructor
  · intro h
    generalize hlog : log ++ [t] = log' at h
    cases h with
    | nil => simp at hlog
    | concat hturns hfits =>
      obtain ⟨rfl, ht⟩ := List.append_inj' hlog rfl
      cases ht
      exact ⟨hturns, hfits, rfl⟩
  · rintro ⟨hturns, hfits, rfl⟩
    exact .concat hturns hfits

section Pick

/-- The top bars of the participants in a pile. -/
def innermost (codes : List String) (pile : List (String × Bar)) : List (String × Bar) :=
  codes.filterMap fun code => pile.find? (·.1 == code)

/-- The bar that counts in the end, if each bar counts that starts no higher than the one before
that counted. -/
def lowest (bars : List (String × Bar)) : Option (String × Bar) :=
  bars.foldl (fun best x =>
    match best with
    | none => some x
    | some b => if b.2.start ≤ x.2.start then some x else best) none

lemma lowest_concat (bars : List (String × Bar)) (x : String × Bar) :
    lowest (bars ++ [x]) =
      match lowest bars with
      | none => some x
      | some b => if b.2.start ≤ x.2.start then some x else some b := by
  have hfold : lowest (bars ++ [x]) =
      match lowest bars with
      | none => some x
      | some b => if b.2.start ≤ x.2.start then some x else lowest bars := by
    rw [lowest, List.foldl_append, List.foldl_cons, List.foldl_nil]
    rfl
  cases hbest : lowest bars with
  | none => rw [hfold, hbest]
  | some b => rw [hfold, hbest]

/-- A bar counts in the end if it does not start above the one that counts among those before, and
no bar behind it starts at its height or further down. -/
theorem lowest_eq_some_iff {bars : List (String × Bar)} {x : String × Bar} :
    lowest bars = some x ↔ ∃ left right, bars = left ++ x :: right ∧
      (∀ best, lowest left = some best → best.2.start ≤ x.2.start) ∧
      ∀ z ∈ right, ¬ x.2.start ≤ z.2.start := by
  induction bars using List.reverseRecOn with
  | nil => simp [lowest]
  | append_singleton bars z ih =>
    rw [lowest_concat]
    constructor
    · intro h
      cases hbest : lowest bars with
      | none =>
        rw [hbest] at h
        cases h
        exact ⟨bars, [], rfl, fun best hb => absurd (hbest.symm.trans hb) nofun, nofun⟩
      | some b =>
        rw [hbest] at h
        dsimp only at h
        split at h
        · next hle =>
          cases h
          refine ⟨bars, [], rfl, fun best hb => ?_, nofun⟩
          cases hbest.symm.trans hb
          exact hle
        · next hle =>
          cases h
          obtain ⟨left, right, rfl, hleft, hright⟩ := ih.1 hbest
          refine ⟨left, right ++ [z], by simp, hleft, ?_⟩
          rw [List.forall_mem_append]
          exact ⟨hright, by simpa using hle⟩
    · rintro ⟨left, right, hsplit, hleft, hright⟩
      rcases List.eq_nil_or_concat right with rfl | ⟨right, z', rfl⟩
      · -- the last bar counts
        obtain ⟨rfl, hz⟩ := List.append_inj' hsplit rfl
        cases hz
        cases hbest : lowest bars with
        | none => rfl
        | some b => exact if_pos (hleft b hbest)
      · rw [List.concat_eq_append, ← List.cons_append, ← List.append_assoc] at hsplit
        obtain ⟨rfl, hz⟩ := List.append_inj' hsplit rfl
        cases hz
        rw [List.concat_eq_append, List.forall_mem_append] at hright
        rw [ih.2 ⟨left, right, rfl, hleft, hright.1⟩]
        exact if_neg (hright.2 z List.mem_cons_self)

/-- The bar that a return picks from a pile. -/
def lowestIn (codes : List String) (pile : List (String × Bar)) : Option (String × Bar) :=
  lowest (innermost codes pile)

lemma mem_of_lowest {bars : List (String × Bar)} {x : String × Bar} (h : lowest bars = some x) :
    x ∈ bars := by
  obtain ⟨left, right, rfl, -⟩ := lowest_eq_some_iff.1 h
  simp

lemma lowest_eq_none_iff {bars : List (String × Bar)} : lowest bars = none ↔ bars = [] := by
  constructor
  · intro h
    rcases List.eq_nil_or_concat bars with rfl | ⟨bars, x, rfl⟩
    · rfl
    · rw [List.concat_eq_append, lowest_concat] at h
      split at h
      · cases h
      · split at h
        · cases h
        · cases h
  · rintro rfl
    rfl

lemma find?_of_mem_innermost {codes : List String} {pile : List (String × Bar)}
    {x : String × Bar} (h : x ∈ innermost codes pile) : pile.find? (·.1 == x.1) = some x := by
  obtain ⟨code, -, hfind⟩ := List.mem_filterMap.1 h
  have hcode := List.find?_some hfind
  rw [beq_iff_eq] at hcode
  rwa [hcode]

lemma lowestIn_nil (codes : List String) : lowestIn codes [] = none := by
  simp [lowestIn, innermost, lowest]

/-- As long as a bar is open a return picks one. -/
lemma exists_lowestIn {codes : List String} {pile : List (String × Bar)}
    (hpile : ∀ x ∈ pile, x.1 ∈ codes) (hne : pile ≠ []) : ∃ x, lowestIn codes pile = some x := by
  rw [← Option.isSome_iff_exists, Option.isSome_iff_ne_none, lowestIn, ne_eq, lowest_eq_none_iff,
    innermost, List.filterMap_eq_nil_iff]
  intro hnone
  obtain ⟨x, hx⟩ := List.exists_mem_of_ne_nil pile hne
  simpa using List.find?_eq_none.1 (hnone x.1 (hpile x hx)) x hx

/-- The latest bar of a pile does not start above the bar that counts among the columns to the left,
and no top bar to the right starts at its height or further down. -/
def StandsOut (codes : List String) (latest : String × Bar) (pile : List (String × Bar)) : Prop :=
  ∃ left right, innermost codes pile = left ++ latest :: right ∧
    (∀ best, lowest left = some best → best.2.start ≤ latest.2.start) ∧
    ∀ x ∈ right, ¬ latest.2.start ≤ x.2.start

lemma standsOut_iff {codes : List String} {latest : String × Bar} {pile : List (String × Bar)} :
    StandsOut codes latest pile ↔ lowestIn codes pile = some latest :=
  lowest_eq_some_iff.symm

end Pick

namespace Sheet

section Return

variable {codes : List String} {pile closed : List (String × Bar)} {s : Sheet}

/-- What a return picks on a sheet is what it picks from the pile. -/
lemma latestBar_eq (h : Standing codes (barsIn pile) closed s) (hnodup : codes.Nodup) :
    s.latestBar = lowestIn codes pile := by
  have hbars : s.bars = codes.map fun code => (code, barsIn pile code) := by
    rw [← h.codes_eq, List.map_map]
    refine (List.map_id _).symm.trans (List.map_congr_left fun entry hentry => ?_)
    have hlookup : s.bars.lookup entry.1 = some entry.2 :=
      (Keyed.get?_eq_some_iff (t := ⟨s.bars, h.codes_eq ▸ hnodup⟩)).2 hentry
    rw [Function.comp_apply, ← h.open_eq, barsOf, hlookup]
    rfl
  rw [latestBar, hbars, lowestIn, lowest, innermost, List.foldl_map, List.foldl_filterMap]
  refine List.foldl_ext _ _ _ fun best code _ => ?_
  have hfind := closed_latest code pile
  unfold Ending.closed at hfind
  cases hcode : barsIn pile code with
  | nil =>
    rw [hcode, List.head?_nil, Option.map_none, Option.toList_none,
      Option.toList_eq_nil_iff] at hfind
    rw [hfind]
  | cons bar rest =>
    rw [hcode, List.head?_cons, Option.map_some, Option.toList_some,
      Option.toList_eq_singleton_iff] at hfind
    rw [hfind]
    cases best with
    | none => rfl
    | some b => rfl

lemma returnEnds_of_lowestIn (h : Standing codes (barsIn pile) closed s) (hnodup : codes.Nodup)
    {code : String} {bar : Bar} (hpick : lowestIn codes pile = some (code, bar)) :
    s.returnEnds = some (code, receiver codes code bar) := by
  have hcodes : s.columns.map (·.participant.code) = codes := by
    rw [← h.lanes_eq, ground, List.map_map]
    rfl
  have hother : (s.columns.find? fun c => c.participant.code != code).map (·.participant.code) =
      codes.find? (· != code) := by
    rw [← hcodes, List.find?_map]
    rfl
  unfold returnEnds receiver
  rw [latestBar_eq h hnodup, hpick]
  dsimp only
  rw [hother]
  cases bar.caller with
  | none => rfl
  | some caller => rfl

lemma returnEnds_of_nil (h : Standing codes (barsIn []) closed s) (hnodup : codes.Nodup) :
    s.returnEnds = s.lastEnds.map fun ends => (ends.2, ends.1) := by
  unfold returnEnds
  rw [latestBar_eq h hnodup, lowestIn_nil]

end Return

/-- The turns of the leaves so far lead to the bars that are open on the sheet, close those that are
drawn on it, and draw the messages on it. -/
structure Follows (codes : List String) (log : List Turn) (pile : List (String × Bar))
    (s : Sheet) : Prop where
  nodup : codes.Nodup
  turns : Turns (lowestIn codes) codes log pile
  standing : Standing codes (barsIn pile) (log.flatMap Turn.closed) s
  inked : Inked codes (log.flatMap Turn.drawn) s
  pile_within : ∀ x ∈ pile, x.1 ∈ codes ∧ ∀ caller, x.2.caller = some caller → caller ∈ codes
  ends_within : ∀ source target, endsAll (log.flatMap Turn.drawn) = some (source, target) →
    source ∈ codes ∧ target ∈ codes

namespace Follows

variable {codes : List String} {log : List Turn} {pile : List (String × Bar)} {s s' : Sheet}

lemma of_quiet (h : Follows codes log pile s) (hquiet : Quiet s s') : Follows codes log pile s' :=
  ⟨h.nodup, h.turns, h.standing.of_posts hquiet.posts_eq, h.inked.of_pen hquiet.pen_eq,
    h.pile_within, h.ends_within⟩

lemma concat (h : Follows codes log pile s) {t : Turn} (hbefore : t.before = pile)
    (hfits : t.Fits (lowestIn codes) codes (endsAll (log.flatMap Turn.drawn)))
    (hstanding : Standing codes (barsIn t.after) (log.flatMap Turn.closed ++ t.closed) s')
    (hinked : Inked codes (log.flatMap Turn.drawn ++ t.drawn) s')
    (hpile : ∀ x ∈ t.after, x.1 ∈ codes ∧ ∀ caller, x.2.caller = some caller → caller ∈ codes)
    (hends : ∀ source target, endsAll (log.flatMap Turn.drawn ++ t.drawn) = some (source, target) →
      source ∈ codes ∧ target ∈ codes) :
    Follows codes (log ++ [t]) t.after s' := by
  refine ⟨h.nodup, .concat (hbefore ▸ h.turns) hfits, ?_, ?_, hpile, ?_⟩
  · simpa using hstanding
  · simpa using hinked
  · simpa using hends

/-- A leaf that is no return follows. -/
lemma plain (h : Follows codes log pile s) {e : Element} {pile' : List (String × Bar)}
    (he : e.Within codes) (hreturn : e.isReturn = false)
    (hloads : e.Loads (endsAll (log.flatMap Turn.drawn)) pile pile')
    (hstanding : Standing codes (barsIn (e.ending.left pile'))
      (log.flatMap Turn.closed ++ e.ending.closed pile') s')
    (hinked : Inked codes (log.flatMap Turn.drawn ++ [e]) s') :
    ∃ t, t.leaf = e ∧ Follows codes (log ++ [t]) t.after s' := by
  refine ⟨⟨e, pile, [e], e.ending.closed pile', e.ending.left pile'⟩, rfl,
    h.concat rfl (.plain hreturn hloads) hstanding hinked ?_ ?_⟩
  · intro x hx
    have hx' := e.ending.left_subset pile' hx
    cases hloads with
    | nothing => exact h.pile_within x hx'
    | @bar code bar hopener _ _ hcaller =>
      rcases List.mem_cons.1 hx' with rfl | hx'
      · exact Element.opener_within he hreturn hopener h.ends_within hcaller
      · exact h.pile_within x hx'
  · intro source target hends
    rw [endsAll_concat] at hends
    cases e with
    | message m =>
      cases hends
      have hcodes := he.mem hreturn
      exact ⟨hcodes m.source (by simp), hcodes m.target (by simp)⟩
    | border m => cases hends
    | _ => exact h.ends_within source target hends

lemma message (h : Follows codes log pile s) {m : Message} (hm : m.Within codes)
    (hreturn : m.isReturn = false) :
    ∃ t, t.leaf = .message m ∧ Follows codes (log ++ [t]) t.after (s.message m) := by
  have hcodes := hm.mem hreturn
  have hmessage := message_eq hreturn (h.standing.hasColumn (hcodes m.source (by simp)))
    (h.standing.hasColumn (hcodes m.target (by simp)))
  obtain ⟨pile', hloads, hstanding⟩ := h.standing.messageBetween hreturn
    (hcodes m.target (by simp)) (endsAll (log.flatMap Turn.drawn))
  rw [← hmessage] at hstanding
  exact h.plain hm hreturn hloads hstanding (h.inked.message hm hreturn)

lemma border (h : Follows codes log pile s) {m : BorderMessage} (hm : m.participant ∈ codes) :
    ∃ t, t.leaf = .border m ∧ Follows codes (log ++ [t]) t.after (s.border m) := by
  obtain ⟨pile', hloads, hstanding⟩ := h.standing.border hm (endsAll (log.flatMap Turn.drawn))
  exact h.plain hm rfl hloads hstanding (h.inked.border hm)

lemma life (h : Follows codes log pile s) {e : LifeEvent} (he : e.participant ∈ codes) :
    ∃ t, t.leaf = .life e ∧ Follows codes (log ++ [t]) t.after (s.life e) := by
  obtain ⟨pile', hloads, hstanding⟩ := h.standing.life he
  rw [h.inked.ends_eq] at hloads
  exact h.plain he rfl hloads hstanding (h.inked.life he)

/-- A return that gets the given ends, from the latest bar of its source. -/
lemma returnBetween (h : Follows codes log pile s) {m : Message} (hm : m.Within codes)
    (hreturn : m.isReturn = true) {source target : String} (hsource : source ∈ codes)
    (htarget : target ∈ codes) (hends : s.returnEnds = some (source, target))
    (hfits : (⟨.message m, pile, [.message { m with source := source, target := target }],
      (Ending.latest source).closed pile, (Ending.latest source).left pile⟩ : Turn).Fits
        (lowestIn codes) codes (endsAll (log.flatMap Turn.drawn))) :
    ∃ t, t.leaf = .message m ∧ Follows codes (log ++ [t]) t.after (s.message m) := by
  have hmessage : s.message m = s.messageBetween m source target := by
    simp [Sheet.message, hreturn, hends, h.standing.hasColumn hsource,
      h.standing.hasColumn htarget]
  rw [hmessage]
  have hinked := h.inked.messageBetween (m := { m with source := source, target := target }) <| by
    rw [hm.multicast_eq hreturn]
    simp [hsource, htarget]
  refine ⟨_, rfl, h.concat rfl hfits (h.standing.returnBetween hreturn hm source target) hinked
    ?_ ?_⟩
  · intro x hx
    exact h.pile_within x ((Ending.latest source).left_subset pile hx)
  · intro source' target' hlast
    rw [endsAll_concat] at hlast
    cases hlast
    exact ⟨hsource, htarget⟩

lemma mem_receiver {code : String} {bar : Bar} (hcode : code ∈ codes)
    (hcaller : ∀ caller, bar.caller = some caller → caller ∈ codes) :
    receiver codes code bar ∈ codes := by
  have hother : (codes.find? (· != code)).getD code ∈ codes := by
    cases hfind : codes.find? (· != code) with
    | none => exact hcode
    | some other => exact List.mem_of_find?_eq_some hfind
  unfold receiver
  split
  · next caller hbar =>
    split
    · exact hother
    · exact hcaller caller hbar
  · exact hother

lemma reply (h : Follows codes log pile s) {m : Message} (hm : m.Within codes)
    (hreturn : m.isReturn = true) :
    ∃ t, t.leaf = .message m ∧ Follows codes (log ++ [t]) t.after (s.message m) := by
  by_cases hpile : pile = []
  · subst hpile
    have hends := returnEnds_of_nil h.standing h.nodup
    rw [h.inked.ends_eq] at hends
    cases hlast : endsAll (log.flatMap Turn.drawn) with
    | none =>
      rw [hlast, Option.map_none] at hends
      have hmessage : s.message m = s := by simp [Sheet.message, hreturn, hends]
      rw [hmessage]
      refine ⟨⟨.message m, [], [], [], []⟩, rfl, h.concat rfl ?_ ?_ ?_ (by simp) ?_⟩
      · rw [hlast]
        exact .echoed hreturn
      · simpa using h.standing
      · simpa using h.inked
      · simp [hlast]
    | some ends =>
      obtain ⟨source, target⟩ := ends
      obtain ⟨hsource, htarget⟩ := h.ends_within source target hlast
      rw [hlast, Option.map_some] at hends
      refine h.returnBetween hm hreturn htarget hsource hends ?_
      rw [hlast]
      exact .echoed hreturn
  · obtain ⟨⟨code, bar⟩, hpick⟩ := exists_lowestIn (fun x hx => (h.pile_within x hx).1) hpile
    have hmem : (code, bar) ∈ pile :=
      List.mem_of_find?_eq_some (find?_of_mem_innermost (mem_of_lowest hpick))
    obtain ⟨hcode, hcaller⟩ := h.pile_within _ hmem
    exact h.returnBetween hm hreturn hcode (mem_receiver hcode hcaller)
      (returnEnds_of_lowestIn h.standing h.nodup hpick) (.answered hreturn hpick)

end Follows

/-- The leaves so far have turns that the sheet follows. -/
def Answers (codes : List String) (es : List Element) (s : Sheet) : Prop :=
  ∃ log pile, log.map Turn.leaf = es ∧ Follows codes log pile s

lemma Answers.concat {codes : List String} {es : List Element} {e : Element} {s s' : Sheet}
    (h : Answers codes es s) (hleaf : ∀ log pile, Follows codes log pile s →
      ∃ t, t.leaf = e ∧ Follows codes (log ++ [t]) t.after s') : Answers codes (es ++ [e]) s' := by
  obtain ⟨log, pile, rfl, hfollows⟩ := h
  obtain ⟨t, rfl, hfollows'⟩ := hleaf log pile hfollows
  exact ⟨log ++ [t], t.after, by simp, hfollows'⟩

/-- Drawing a leaf goes on with the turns. -/
lemma carried_answers (codes : List String) : Carried (Answers codes) (Element.Within codes) where
  quiet h hquiet := by
    obtain ⟨log, pile, hleaves, hfollows⟩ := h
    exact ⟨log, pile, hleaves, hfollows.of_quiet hquiet⟩
  forget h := by
    obtain ⟨log, pile, hleaves, hfollows⟩ := h
    exact ⟨log, pile, hleaves, { hfollows with
      standing := hfollows.standing.of_posts rfl, inked := hfollows.inked.forget }⟩
  message {es s m} h he := h.concat fun log pile hfollows => by
    cases hreturn : m.isReturn with
    | false => exact hfollows.message he hreturn
    | true => exact hfollows.reply he hreturn
  border h he := h.concat fun log pile hfollows => hfollows.border he
  life h he := h.concat fun log pile hfollows => hfollows.life he
  renumber {es s} a h := h.concat fun log pile hfollows => by
    refine hfollows.plain trivial rfl (.nothing rfl) ?_ ?_
    · exact hfollows.standing.endNone.of_posts (posts_renumber s a)
    · exact hfollows.inked.concat (fun _ => rfl) (fun _ => rfl) (pen_renumber s a)
  mark {es s e} h he := h.concat fun log pile hfollows => by
    have hinked := hfollows.inked.mark he
    cases e with
    | note n => exact hfollows.plain trivial rfl (.nothing rfl) hfollows.standing.endNone hinked
    | divider label =>
      exact hfollows.plain trivial rfl (.nothing rfl) hfollows.standing.endNone hinked
    | delay label => exact hfollows.plain trivial rfl (.nothing rfl) hfollows.standing.endNone hinked
    | space size => exact hfollows.plain trivial rfl (.nothing rfl) hfollows.standing.endNone hinked
    | reference r => exact hfollows.plain trivial rfl (.nothing rfl) hfollows.standing.endNone hinked
    | _ => cases he

/-- An event that activates a participant while no message is remembered. -/
lemma life_eq_activate {s : Sheet} {e : LifeEvent} (hcolumn : s.hasColumn e.participant = true)
    (hkind : e.kind = .activate) (hlast : s.lastCell = none) :
    s.life e = s.activate e.participant s.cursor none e.color := by
  simp [life, hcolumn, hkind, justDrawn, hlast]

/-- A drawing starts at an exact height. -/
lemma exists_cursor_start (d : Diagram) (parent : String) :
    ∃ n, (Sheet.start d parent).cursor = .int n := by
  unfold Sheet.start
  dsimp only
  cases titleOf d with
  | none => exact ⟨_, rfl⟩
  | some title => exact ⟨_, rfl⟩

end Sheet

namespace Turn.Fits

variable {pick pick' : List (String × Bar) → Option (String × Bar)} {codes : List String}
  {last : Option (String × String)} {t : Turn}

/-- Another way to pick makes no difference where it picks the same. -/
lemma congr (h : t.Fits pick codes last)
    (hpick : t.leaf.isReturn = true → pick' t.before = pick t.before) : t.Fits pick' codes last := by
  cases h with
  | plain hreturn hloads => exact .plain hreturn hloads
  | answered hreturn hbar => exact .answered hreturn ((hpick hreturn).trans hbar)
  | echoed hreturn => exact .echoed hreturn

/-- A return with an open bar closes the latest bar of the participant that it picks. -/
lemma closed_eq (h : t.Fits pick codes last) (hreturn : t.leaf.isReturn = true)
    (hbefore : t.before ≠ []) :
    ∃ code bar, pick t.before = some (code, bar) ∧
      t.closed = (Ending.latest code).closed t.before := by
  cases h with
  | plain hreturn' => exact absurd (hreturn'.symm.trans hreturn) Bool.false_ne_true
  | @answered _ _ code bar _ hbar => exact ⟨code, bar, hbar, rfl⟩
  | echoed _ => exact absurd rfl hbefore

/-- An event that activates a participant opens a bar of its color and closes none. -/
lemma activates (h : t.Fits pick codes last) {e : LifeEvent} (hleaf : t.leaf = .life e)
    (hkind : e.kind = .activate) :
    ∃ bar : Bar, bar.color = e.color ∧ t.closed = [] ∧ t.after = (e.participant, bar) :: t.before := by
  have hending : e.ending = .none := by rw [LifeEvent.ending, hkind]
  have hopener : (Element.life e).opener? = some e.participant := if_pos hkind
  cases h with
  | plain hreturn hloads =>
    cases hleaf
    cases hloads with
    | nothing hnone => exact absurd (hopener.symm.trans hnone) nofun
    | @bar code bar hsome _ hcolor _ =>
      cases hopener.symm.trans hsome
      refine ⟨bar, hcolor, ?_, ?_⟩
      · exact congrArg (Ending.closed · _) hending
      · exact congrArg (Ending.left · _) hending
  | answered => cases hleaf
  | echoed => cases hleaf

end Turn.Fits

/-- A return that picks the lowest bar goes by the pile if that is the latest bar. -/
lemma fits_head_iff {codes : List String} {last : Option (String × String)} {t : Turn}
    (h : t.Fits (lowestIn codes) codes last) :
    t.Fits List.head? codes last ↔
      (t.leaf.isReturn = true → lowestIn codes t.before = t.before.head?) := by
  refine ⟨fun h' hreturn => ?_, fun hpick => h.congr fun hreturn => (hpick hreturn).symm⟩
  cases hbefore : t.before with
  | nil => exact lowestIn_nil codes
  | cons latest older =>
    have hne : t.before ≠ [] := by simp [hbefore]
    obtain ⟨code, bar, hpick, hclosed⟩ := h.closed_eq hreturn hne
    obtain ⟨code', bar', hpick', hclosed'⟩ := h'.closed_eq hreturn hne
    -- both close one bar, which is the one that they pick
    have hfind : (Ending.latest code).closed t.before = [(code, bar)] := by
      have hmem := find?_of_mem_innermost (mem_of_lowest hpick)
      exact congrArg Option.toList hmem
    have hfind' : (Ending.latest code').closed t.before = [(code', bar')] := by
      rw [hbefore, List.head?_cons, Option.some.injEq] at hpick'
      simp [Ending.closed, hbefore, hpick']
    rw [hclosed, hfind, hfind', List.cons.injEq] at hclosed'
    rw [← hbefore, hpick, hpick', hclosed'.1]

/-- A return ends the bar that was opened latest each time if that bar stands out each time. -/
theorem turns_head_iff {codes : List String} {log : List Turn} {pile : List (String × Bar)}
    (h : Turns (lowestIn codes) codes log pile) :
    Turns List.head? codes log pile ↔
      ∀ t ∈ log, t.leaf.isReturn = true → ∀ latest older, t.before = latest :: older →
        StandsOut codes latest t.before := by
  have hstands : ∀ before : List (String × Bar),
      (∀ latest older, before = latest :: older → StandsOut codes latest before) ↔
        lowestIn codes before = before.head? := by
    intro before
    cases before with
    | nil => simp [lowestIn_nil]
    | cons latest older =>
      rw [List.head?_cons, ← standsOut_iff]
      constructor
      · intro hall
        exact hall latest older rfl
      · rintro hlatest _ _ ⟨⟩
        exact hlatest
  induction h with
  | nil => simp [Turns.nil]
  | concat hlog hfits ih =>
    rw [turns_concat_iff, List.forall_mem_append, List.forall_mem_singleton, hstands,
      ← fits_head_iff hfits, and_iff_left rfl]
    exact and_congr_left' ih

namespace Diagram

/-- The sheet of a diagram goes by the turns of its leaves: it holds the messages that are drawn and
the bars that are closed, those of the last pile in the end. -/
structure GoesBy (d : Diagram) (parent : String) (log : List Turn) (pile : List (String × Bar)) :
    Prop where
  leaves_eq : log.map Turn.leaf = leavesAll d.elements
  messages : List.Forall₂ (d.sheet parent).ground.Shows
    (strokesAll {} (log.flatMap Turn.drawn)) (d.sheet parent).layers.messages
  bars : List.Forall₂ (d.sheet parent).ground.ShowsBar
    (log.flatMap Turn.closed ++ swept d.codes pile) (d.sheet parent).layers.bars

/-- A diagram that was read goes by turns in which each return picks the lowest of the top bars: its
arrow runs from the participant of that bar to the caller of the bar, and the bar is closed.  This is
the bar that was opened latest, each time, if and only if that bar stands out each time. -/
theorem returns_read {text : String} {d : Diagram} (hread : Diagram.read text = .ok d)
    (parent : String) :
    (∀ cells, d.draw parent = .ok cells → cells = (d.sheet parent).layers.all) ∧
      ∃ log pile, Turns (lowestIn d.codes) d.codes log pile ∧ d.GoesBy parent log pile ∧
        (Turns List.head? d.codes log pile ↔
          ∀ t ∈ log, t.leaf.isReturn = true → ∀ latest older, t.before = latest :: older →
            StandsOut d.codes latest t.before) := by
  refine ⟨fun cells hcells => (Fault.check_eq_ok_iff.1 hcells).2.symm, ?_⟩
  have hnodup := nodup_codes_read hread
  obtain ⟨log, pile, hleaves, hfollows⟩ := (Sheet.carried_answers d.codes).drawAll 0
    ⟨[], [], rfl, hnodup, .nil, .start d parent, .start d parent, nofun, nofun⟩ d.elements
    (within_read hread)
  refine ⟨log, pile, hfollows.turns, ⟨hleaves, ?_, ?_⟩, turns_head_iff hfollows.turns⟩
  · exact (hfollows.inked.of_pen (Sheet.pen_finish _ d)).shows
  · exact hfollows.standing.finish hnodup d

/-- Nested bars in a fragment, a parallel message, a bar that is destroyed, and a return for each
bar that is left, with one more behind them. -/
theorem returns_read_parallel :
    let text := "A -> B ++ : x\nopt\nB -> C ++\n& B -> D ++\nreturn\nend\ndestroy C\nreturn\nreturn"
    ∃ d, Diagram.read text = .ok d ∧ (leavesAll d.elements).length = 7 ∧
      ∃ log pile, Turns (lowestIn d.codes) d.codes log pile ∧ d.GoesBy "1" log pile ∧
        log.length = 7 := by
  intro text
  obtain ⟨d, hread, hd⟩ := Fault.exists_of_any (by decide +kernel :
    (Diagram.read text).toOption.any (fun d => (leavesAll d.elements).length == 7) = true)
  rw [beq_iff_eq] at hd
  obtain ⟨-, log, pile, hturns, hgoes, -⟩ := returns_read hread "1"
  refine ⟨d, hread, hd, log, pile, hturns, hgoes, ?_⟩
  rw [← List.length_map Turn.leaf, hgoes.leaves_eq, hd]

/-- Two participants that are activated one after the other without a message: a return that goes by
the pile ends the second bar. -/
lemma closed_of_turns_head {codes : List String} {log : List Turn} {pile : List (String × Bar)}
    (hturns : Turns List.head? codes log pile) {first second : LifeEvent} {m : Message}
    (hlog : log.map Turn.leaf = [.life first, .life second, .message m])
    (hfirst : first.kind = .activate) (hsecond : second.kind = .activate)
    (hreturn : m.isReturn = true) :
    ∃ bar : Bar, bar.color = second.color ∧
      log.flatMap Turn.closed = [(second.participant, bar)] := by
  obtain ⟨t₁, log, rfl, ht₁, hlog⟩ := List.map_eq_cons_iff.1 hlog
  obtain ⟨t₂, log, rfl, ht₂, hlog⟩ := List.map_eq_cons_iff.1 hlog
  obtain ⟨t₃, log, rfl, ht₃, hlog⟩ := List.map_eq_cons_iff.1 hlog
  cases List.map_eq_nil_iff.1 hlog
  -- the three turns from the last one to the first one
  have hturns₃ : Turns List.head? codes ([t₁, t₂] ++ [t₃]) pile := hturns
  obtain ⟨hturns₂, hfits₃, -⟩ := turns_concat_iff.1 hturns₃
  have hturns₂ : Turns List.head? codes ([t₁] ++ [t₂]) t₃.before := hturns₂
  obtain ⟨hturns₁, hfits₂, hbefore₃⟩ := turns_concat_iff.1 hturns₂
  have hturns₁ : Turns List.head? codes ([] ++ [t₁]) t₂.before := hturns₁
  obtain ⟨-, hfits₁, -⟩ := turns_concat_iff.1 hturns₁
  obtain ⟨-, -, hclosed₁, -⟩ := hfits₁.activates ht₁ hfirst
  obtain ⟨bar, hbar, hclosed₂, hafter₂⟩ := hfits₂.activates ht₂ hsecond
  rw [hafter₂] at hbefore₃
  obtain ⟨code, bar', hpick, hclosed₃⟩ := hfits₃.closed_eq (by rw [ht₃]; exact hreturn)
    (by simp [hbefore₃])
  rw [hbefore₃, List.head?_cons, Option.some.injEq, Prod.mk.injEq] at hpick
  obtain ⟨rfl, rfl⟩ := hpick
  refine ⟨bar, hbar, ?_⟩
  simp [hclosed₁, hclosed₂, hclosed₃, hbefore₃, Ending.closed]

/-- Two participants that are activated one after the other without a message, the one further right
first: a return ends the first bar. -/
lemma shows_sheet_of_level {d : Diagram} (hwithin : ∀ e ∈ leavesAll d.elements, e.Within d.codes)
    {first second : LifeEvent} {m : Message}
    (helements : d.elements = [.life first, .life second, .message m])
    (hcodes : d.codes = [second.participant, first.participant])
    (hne : second.participant ≠ first.participant)
    (hfirst : first.kind = .activate) (hsecond : second.kind = .activate)
    (hreturn : m.isReturn = true) (parent : String) :
    ∃ (bar : Bar) (rest : List (String × Bar)), bar.color = first.color ∧
      List.Forall₂ (d.sheet parent).ground.ShowsBar ((first.participant, bar) :: rest)
        (d.sheet parent).layers.bars := by
  have hnodup : d.codes.Nodup := by simp [hcodes, hne]
  have hleaves : leavesAll d.elements = [.life first, .life second, .message m] := by
    rw [helements]
    rfl
  have hm : m.Within d.codes := hwithin (.message m) (by simp [hleaves])
  have hsheet : d.sheet parent =
      ((((Sheet.start d parent).life first).life second).message m).finish d := by
    rw [sheet, helements]
    rfl
  have hstart := Sheet.Standing.start d parent
  obtain ⟨top, htop⟩ := Sheet.exists_cursor_start d parent
  have hlast : (Sheet.start d parent).lastCell = none :=
    congrArg Pen.lastCell (Sheet.views_start d parent).2.1
  have hfirstCode : first.participant ∈ d.codes := by simp [hcodes]
  have hsecondCode : second.participant ∈ d.codes := by simp [hcodes]
  generalize Sheet.start d parent = s at hsheet hstart htop hlast
  -- the cursor has not moved when the second event comes
  have hload := hstart.load hfirstCode s.cursor none first.color
  have hlife := Sheet.life_eq_activate (hstart.hasColumn hfirstCode) hfirst hlast
  rw [← hlife] at hload
  have hlast' : (s.life first).lastCell = none := by
    rw [hlife]
    exact hlast
  have htop' : (s.life first).cursor = .int top := by
    rw [hlife]
    exact htop
  have hloads := hload.load hsecondCode (s.life first).cursor none second.color
  rw [← Sheet.life_eq_activate (hload.hasColumn hsecondCode) hsecond hlast', htop', htop] at hloads
  obtain ⟨a, bar, ha, htopBar, hcaller, hcolor, hopen⟩ : ∃ a bar : Bar, a.start = .int top ∧
      bar.start = .int top ∧ bar.caller = none ∧ bar.color = first.color ∧
      Sheet.Standing d.codes (barsIn [(second.participant, a), (first.participant, bar)]) []
        ((s.life first).life second) :=
    ⟨_, _, rfl, rfl, rfl, rfl, hloads⟩
  generalize (s.life first).life second = t at hsheet hopen
  have hpick : lowestIn d.codes [(second.participant, a), (first.participant, bar)] =
      some (first.participant, bar) := by
    have hle : Number.int top ≤ Number.int top := by
      show (Number.int top).le (Number.int top) = true
      simp [Number.le, Number.same, Number.compare?]
    simp [lowestIn, innermost, lowest, hcodes, hne, ha, htopBar, hle]
  have hreceiver : receiver d.codes first.participant bar ∈ d.codes :=
    Sheet.Follows.mem_receiver hfirstCode (by simp [hcaller])
  have hmessage : t.message m =
      t.messageBetween m first.participant (receiver d.codes first.participant bar) := by
    simp [Sheet.message, hreturn, Sheet.returnEnds_of_lowestIn hopen hnodup hpick,
      hopen.hasColumn hfirstCode, hopen.hasColumn hreceiver]
  have hclosed := (hopen.returnBetween hreturn hm first.participant
    (receiver d.codes first.participant bar)).finish hnodup d
  rw [← hmessage, ← hsheet] at hclosed
  have hfind : (Ending.latest first.participant).closed
      [(second.participant, a), (first.participant, bar)] = [(first.participant, bar)] := by
    simp [Ending.closed, hne]
  rw [hfind] at hclosed
  exact ⟨bar, _, hcolor, hclosed⟩

/-- The first of two participants is activated in blue behind the second one, which is red, and then
something returns. -/
def activatesBoth (d : Diagram) : Bool :=
  match d.elements, d.participants.values with
  | [.life first, .life second, .message m], [p, q] =>
    first.participant == "B" && first.kind == .activate && first.color == some "#red" &&
      second.participant == "A" && second.kind == .activate &&
      second.color == some "#blue" && m.isReturn &&
      p.code == "A" && p.order == none && q.code == "B" && q.order == none
  | _, _ => false

/-- Two bars that start at the same height: the return ends the bar further right, which was opened
first.  So the diagram does not go by turns in which a return ends the bar that was opened latest;
the first bar that is drawn has the wrong color. -/
theorem not_returns_read_level :
    let text := "participant A\nparticipant B\nactivate B #red\nactivate A #blue\nreturn"
    ∃ d, Diagram.read text = .ok d ∧
      ¬ ∃ log pile, Turns List.head? d.codes log pile ∧ d.GoesBy "1" log pile := by
  intro text
  obtain ⟨d, hread, hd⟩ := Fault.exists_of_any (by decide +kernel :
    (Diagram.read text).toOption.any activatesBoth = true)
  refine ⟨d, hread, ?_⟩
  rintro ⟨log, pile, hturns, hgoes⟩
  unfold activatesBoth at hd
  split at hd
  · next first second m p q helements hvalues =>
    simp only [Bool.and_eq_true, beq_iff_eq] at hd
    obtain ⟨⟨⟨⟨⟨⟨⟨⟨⟨⟨hB, hfirst⟩, hred⟩, hA⟩, hsecond⟩, hblue⟩, hreturn⟩, hp⟩, hp'⟩, hq⟩, hq'⟩ := hd
    have hcodes : d.codes = ["A", "B"] := by
      rw [codes, columns, hvalues, List.mergeSort_of_pairwise (by simp [orderLe, hp', hq'])]
      simp [hp, hq]
    -- the first bar that is drawn is the red one
    obtain ⟨bar, rest, hbar, hshows⟩ := shows_sheet_of_level (within_read hread) helements
      (by rw [hcodes, hA, hB]) (by simp [hA, hB]) hfirst hsecond hreturn "1"
    -- going by the pile the first one is blue
    have hlog := hgoes.leaves_eq
    rw [helements] at hlog
    obtain ⟨bar', hbar', hclosed⟩ := closed_of_turns_head hturns hlog hfirst hsecond hreturn
    have hshows' := hgoes.bars
    rw [hclosed] at hshows'
    cases hbars : (d.sheet "1").layers.bars with
    | nil =>
      rw [hbars] at hshows
      cases hshows
    | cons c cs =>
      rw [hbars] at hshows hshows'
      have hstyle := (List.forall₂_cons.1 hshows).1.style_eq
      rw [(List.forall₂_cons.1 hshows').1.style_eq, hbar, hbar', hred, hblue] at hstyle
      exact absurd hstyle (by decide +kernel)
  · cases hd

end Diagram
end Sequence
end UmlDraw
