/-
# Loops in lists, in branches and in bodies

Where a loop is left depends on the list in which it stands and on what is around this list.

The main statements are

* `appends_join`: the connector to the next instruction;
* `Trace.join`: an instruction with the rest of its list;
* `Instruction.Goes.cons`: what a list hands on, by what its first instruction and the rest do;
* `Instruction.appends_branch` and `Instruction.appends_strand`: lists between two cells;
* `Instruction.looped_before` and `Instruction.looped_again`: lists that are done again;
* `Instruction.traced_loop`: a loop around the loops in its body.
-/
import UmlDraw.Proofs.Activity.Exit

namespace UmlDraw

/-! ## Lists with loops

A list of instructions is drawn one instruction after the other, with a connector from each to the
next one.  The connector has the label of the connector line before it, or that of the way out of
the instruction behind which it starts.  So the connector from a loop to the next instruction of its
list has the label of the loop. -/

namespace Activity

open Cell Sketch

variable {k : Canvas} {cs cs₁ cs₂ : List Cell}

/-! ### Steps and joints -/

lemma traced_box {c : Cell} {value : String} (h : IsBox c (k.count + 1) value)
    (labels : List String) :
    Traced k [] labels ⟨some (cellId (k.count + 1)), some (cellId (k.count + 1))⟩ [c] := by
  have hamong : Among k [c] (k.count + 1) := by simp [Among]
  exact (Closed.box h fun _ => False.elim).traced hamong hamong (List.forall_mem_nil _) labels

lemma traced_nil (labels : List String) : Traced k [] labels ⟨none, none⟩ [] :=
  ⟨none, none, [], rfl, Trace.nil, rfl, List.forall_mem_nil _⟩

lemma appends_drawStep (cx y : Rat) (n : Node) (s : Step) (labels : List String) (k : Canvas) :
    (drawStep cx y s).Appends k fun ends cs =>
      Traced k [] labels ends cs ∧ ends.entry.isSome = !(Instruction.step n s).isAside := by
  unfold drawStep
  cases s with
  | action | start =>
    refine (appends_drawAround _ _ _ _ _ k).imp ?_ |>.returns
    rintro _ _ ⟨rfl, c, rfl, hc⟩
    exact ⟨traced_box hc labels, rfl⟩
  | stop | finish =>
    refine Appends.bind (appends_drawAround _ _ _ _ _ k) ?_
    rintro _ _ ⟨rfl, c, rfl, hc⟩
    refine (appends_drawAround _ _ _ _ _ _).imp ?_ |>.returns
    rintro _ _ ⟨rfl, c', rfl, hc'⟩
    have hamong : Among k ([c] ++ [c']) (k.count + 1) := by simp [Among]
    have hclosed : Closed k (fun _ => False) ([c] ++ [c']) [] :=
      (Closed.box hc fun _ => False.elim).seq (Closed.box hc' fun _ => False.elim)
        fun _ => False.elim
    exact ⟨hclosed.traced hamong hamong (List.forall_mem_nil _) labels, rfl⟩
  | kill =>
    refine (appends_drawAround _ _ _ _ _ k).imp ?_ |>.returns
    rintro _ _ ⟨rfl, c, rfl, hc⟩
    refine ⟨⟨some (k.count + 1), none, [], rfl,
      ⟨?_, ?_, fun hn => absurd hn (Option.some_ne_none _), hc.links _ _, Hosts.nil⟩, rfl,
      List.forall_mem_nil _⟩, rfl⟩
    · rintro n ⟨⟩
      simp [Among]
    · rintro n ⟨⟩
  | _ => exact Appends.pure ⟨traced_nil labels, rfl⟩

lemma appends_drawNote (cx y : Rat) (n : Note) (k : Canvas) :
    (drawNote cx y n).Appends k fun _ cs => ∃ c, cs = [c] ∧ IsBox c (k.count + 1) n.text := by
  refine ((appends_drawAround _ _ _ _ _ k).imp ?_).returns
  exact fun _ cs hcs => hcs.2

/-- What is no part of the flow leaves it as it is. -/
lemma join_aside (c : Chain) (label : Option String) :
    c.join ⟨none, none⟩ label = pure { c with pending := none } := by
  unfold Chain.join
  cases c.exit <;> simp

/-- The flow goes on behind an instruction, to which a connector leads if there was a cell before
it. -/
lemma appends_join (c : Chain) {before : Option Nat} (hc : c.exit = before.map cellId) (e : Nat)
    (exit label : Option String) (k : Canvas) :
    (c.join ⟨some (cellId e), exit⟩ label).Appends k fun d cs =>
      Leads before e (((c.pending.bind Arrow.label).or c.exitLabel).getD "") cs ∧
        d.entry = c.entry.or (some (cellId e)) ∧ d.exit = exit ∧ d.exitLabel = label ∧
          d.pending = none := by
  unfold Chain.join
  rw [hc]
  cases before with
  | none => exact Appends.pure ⟨leads_none (.inl rfl) _, rfl, rfl, rfl, rfl⟩
  | some b =>
    cases hpending : c.pending with
    | none =>
      refine (appends_drawPlain (a := some b) (b := some e) rfl rfl _ k).imp ?_ |>.returns
      exact fun _ cs hcs => ⟨hcs, rfl, rfl, rfl, rfl⟩
    | some a =>
      refine (appends_drawFlow (a := some b) (b := some e) rfl rfl _ _ _ k).imp ?_ |>.returns
      exact fun _ cs hcs => ⟨hcs, rfl, rfl, rfl, rfl⟩

/-! ### An instruction before the rest of its list -/

/-- The way out of two pieces of the flow, the second of which may be empty. -/
def lastExit (first entry exit : Option Nat) : Option Nat :=
  if entry.isSome then exit else first

section Join

variable {before entry exit x : Option Nat} {e : Nat} {ss tt : List Spot} {value : String}

/-- At an earlier cell other than the one before the list no connector starts. -/
lemma Trace.labelsFrom_eq_nil (h : Trace k before entry exit cs ss) {n : Nat} (hn : n ≤ k.count)
    (hne : before ≠ some n) : labelsFrom (cellId n) cs = [] := by
  refine h.links.labelsFrom_eq_nil ?_
  rintro (hn' | hn')
  · exact absurd hn'.1 (Nat.not_lt.2 hn)
  · exact hne hn'

lemma Trace.lt_of_among (h : Trace ((k.add cs).add cs₁) x entry exit cs₂ tt) {n : Nat}
    (hn : exit = some n ∨ ∃ t ∈ tt, t.diamond = n) : k.count + cs.length < n := by
  have hlt : ((k.add cs).add cs₁).count < n := by
    rcases hn with hn | ⟨t, ht, rfl⟩
    · exact (h.among_exit n hn).1
    · exact (h.hosts.among ht).1
  simp only [Canvas.count_add] at hlt
  omega

variable (hone : Trace k none (some e) x cs ss)
  (h : Trace ((k.add cs).add cs₁) x entry exit cs₂ tt)

include hone h

/-- The flow goes out at a loop of the first instruction only if the rest has no flow. -/
lemma Trace.eq_none_of_lastExit {s : Spot} (hs : s ∈ ss)
    (hexit : lastExit x entry exit = some s.diamond) : x = some s.diamond ∧ entry = none := by
  cases entry with
  | none => exact ⟨hexit, rfl⟩
  | some _ =>
    have hlt := h.lt_of_among (.inl hexit)
    exact absurd (hone.hosts.among hs).2 (Nat.not_le.2 hlt)

/-- The flow goes out at a loop of the rest only if it goes out of the rest there. -/
lemma Trace.eq_exit_of_lastExit {t : Spot} (ht : t ∈ tt)
    (hexit : lastExit x entry exit = some t.diamond) : exit = some t.diamond := by
  cases entry with
  | some _ => exact hexit
  | none =>
    have hlt := h.lt_of_among (.inr ⟨t, ht, rfl⟩)
    exact absurd (hone.among_exit _ hexit).2 (Nat.not_le.2 hlt)

/-- The loops of an instruction and of the rest of its list, if the rest has the connectors that
leave the loop at which the flow goes out of the instruction. -/
lemma Trace.hosts_join (hbefore : ∀ b, before = some b → b ≤ k.count)
    (hjoin : Leads before e value cs₁)
    (hlabels : ∀ s ∈ ss, x = some s.diamond →
      labelsFrom (cellId s.diamond) cs₂ = if entry.isSome then s.labels else []) :
    Hosts k (cs ++ (cs₁ ++ cs₂)) (lastExit x entry exit) (ss ++ tt) := by
  have hnil : Hosts (k.add cs) cs₁ none [] := Hosts.nil
  have hrest : Hosts (k.add cs) (cs₁ ++ cs₂) (lastExit x entry exit) tt := by
    have hjoined := hnil.seq h.hosts hjoin.links
      (fun n hn => by have := hbefore n hn; rw [Canvas.count_add]; omega)
      (List.forall_mem_nil _) (List.forall_mem_nil _)
    cases entry with
    | some _ => exact hjoined
    | none =>
      obtain rfl := h.no_flow rfl
      exact hjoined.leave fun t ht hxt =>
        absurd (hone.eq_exit_of_lastExit h ht hxt).symm (Option.some_ne_none _)
  refine hone.hosts.seq hrest hone.links ?_
    (fun s hs hexit => (hone.eq_none_of_lastExit h hs hexit).1) fun s hs => ?_
  · rintro n (hn | ⟨⟨⟩⟩)
    exact hn.2
  · have hamong := hone.hosts.among hs
    have hnone : labelsFrom (cellId s.diamond) cs₁ = [] :=
      hjoin.links.labelsFrom_eq_nil fun hb => absurd hamong.1 (Nat.not_lt.2 (hbefore _ hb))
    rw [labelsFrom_append, hnone, List.nil_append]
    by_cases hxs : x = some s.diamond
    · rw [hlabels s hs hxs, if_pos hxs]
      cases entry with
      | none => simp [lastExit, hxs]
      | some _ =>
        rw [if_neg fun hexit =>
          absurd (hone.eq_none_of_lastExit h hs hexit).2 (Option.some_ne_none _)]
        rfl
    · rw [if_neg hxs]
      refine h.labelsFrom_eq_nil ?_ hxs
      have := hamong.2
      simp only [Canvas.count_add]
      omega

/-- An instruction is drawn and joined to the cell before it, and then the rest of its list. -/
lemma Trace.join (hbefore : ∀ b, before = some b → b ≤ k.count)
    (hjoin : Leads before e value cs₁)
    (hlabels : ∀ s ∈ ss, x = some s.diamond →
      labelsFrom (cellId s.diamond) cs₂ = if entry.isSome then s.labels else []) :
    Trace k before (some e) (lastExit x entry exit) (cs ++ (cs₁ ++ cs₂)) (ss ++ tt) where
  among_entry := by
    rintro n ⟨⟩
    exact (hone.among_entry e rfl).left
  among_exit n hn := by
    cases entry with
    | none => exact (hone.among_exit n hn).left
    | some _ => exact (h.among_exit n hn).right.right
  no_flow hn := absurd hn (Option.some_ne_none _)
  links := by
    refine (hone.links.mono ?_ ?_).append ((hjoin.links.mono ?_ ?_).append (h.links.mono ?_ ?_))
    · rintro n (hn | ⟨⟨⟩⟩)
      exact .inl hn.left
    · exact fun n hn => hn.left
    · exact fun n hn => .inr hn
    · rintro n ⟨⟩
      exact (hone.among_entry e rfl).left
    · rintro n (hn | hn)
      · exact .inl hn.right.right
      · exact .inl (hone.among_exit n hn).left
    · exact fun n hn => hn.right.right
  hosts := hone.hosts_join h hbefore hjoin hlabels

/-- From the cell before an instruction one connector leads on, to the instruction. -/
lemma Trace.labelsFrom_join {b : Nat} (hb : b ≤ k.count) (hjoin : Leads b e value cs₁) :
    labelsFrom (cellId b) (cs ++ (cs₁ ++ cs₂)) = [value] := by
  have hxb : x ≠ some b := fun hxb => absurd (hone.among_exit b hxb).1 (Nat.not_lt.2 hb)
  have hle : b ≤ ((k.add cs).add cs₁).count := by
    simp only [Canvas.count_add]
    omega
  rw [labelsFrom_append, labelsFrom_append, hone.labelsFrom_eq_nil hb
    (Option.some_ne_none _).symm, h.labelsFrom_eq_nil hle hxb, hjoin.labels]
  simp

end Join

/-! ### Lists -/

namespace Instruction

/-- A list goes on from a cell before it: what it draws has one connector from this cell, to the
first instruction of its flow, and the flow goes out of the last one. -/
structure Goes (c : Chain) (k : Canvas) (before : Option Nat) (out : Behind)
    (is : List Instruction) (entry exit : Option Nat) (cs : List Cell) (ss : List Spot) : Prop where
  trace : Trace k before entry exit cs ss
  exits : ss.map Spot.toExit = exitsAll out is
  waits : ∀ s ∈ ss, exit = some s.diamond → s.labels = out.labels none
  ended : entry = none → behind out c.pending is = out
  labels : ∀ b, before = some b → labelsFrom (cellId b) cs =
    if entry.isSome then (behind out c.pending is).labels c.exitLabel else []

variable {c : Chain} {before entry exit : Option Nat} {out : Behind} {i : Instruction}
  {is rest : List Instruction} {ss tt : List Spot}

lemma goes_nil : Goes c k before out [] none none [] [] where
  trace := Trace.nil
  exits := rfl
  waits := List.forall_mem_nil _
  ended _ := rfl
  labels _ _ := rfl

lemma exits_of_isAside (hi : i.isAside = true) (out : Behind) : exits out i = [] := by
  cases i with
  | step n s => rfl
  | _ => cases hi

/-- What is no part of the flow is drawn before the rest of a list. -/
lemma Goes.aside {d : Chain} (h : Goes d (k.add cs) before out rest entry exit cs₁ ss)
    (hi : i.isAside = true)
    (hpending : behind out c.pending (i :: rest) = behind out d.pending rest)
    (hlabel : d.exitLabel = c.exitLabel) (hbefore : ∀ b, before = some b → b ≤ k.count)
    (hcs : Closed k (fun _ => False) cs []) :
    Goes c k before out (i :: rest) entry exit (cs ++ cs₁) ss where
  trace := h.trace.behind hcs
  exits := by
    rw [exitsAll, exits_of_isAside hi, List.nil_append, h.exits]
  waits := h.waits
  ended he := hpending.trans (h.ended he)
  labels b hb := by
    have hnone : labelsFrom (cellId b) cs = [] := by
      refine hcs.links.labelsFrom_eq_nil fun hn => ?_
      exact absurd (hn.resolve_right id).1 (Nat.not_lt.2 (hbefore b hb))
    rw [labelsFrom_append, hnone, List.nil_append, h.labels b hb, hpending, hlabel]

lemma behind_aside (hi : i.isAside = true) (harrow : ∀ n a, i ≠ step n (.arrow a))
    (line : Option Arrow) : behind out line (i :: rest) = behind out none rest := by
  cases i with
  | step n s =>
    cases s with
    | arrow a => exact absurd rfl (harrow n a)
    | note | leave => rfl
    | _ => cases hi
  | _ => cases hi

lemma behind_cons (hi : i.isAside = false) (line : Option Arrow) :
    behind out line (i :: rest) = .next line := by
  cases i with
  | step n s =>
    cases s with
    | arrow | note | leave => cases hi
    | _ => rfl
  | _ => rfl

/-- An instruction of the flow is drawn before the rest of a list: the connectors that leave it are
the first ones of the rest. -/
lemma Goes.cons {d : Chain} {e : Nat} {x : Option Nat}
    (h : Goes d ((k.add cs).add cs₁) x out rest entry exit cs₂ tt) (hi : i.isAside = false)
    (hout : ∀ label, out.labels label = out.labels none)
    (hbefore : ∀ b, before = some b → b ≤ k.count)
    (hone : Trace k none (some e) x cs ss)
    (hexits : ss.map Spot.toExit = Instruction.exits (behind out none rest) i)
    (hwaits : ∀ s ∈ ss, x = some s.diamond →
      s.labels = (behind out none rest).labels i.exitLabel)
    (hjoin : Leads before e (((c.pending.bind Arrow.label).or c.exitLabel).getD "") cs₁)
    (hpending : d.pending = none) (hlabel : d.exitLabel = i.exitLabel) :
    Goes c k before out (i :: rest) (some e) (lastExit x entry exit)
      (cs ++ (cs₁ ++ cs₂)) (ss ++ tt) where
  trace := by
    refine hone.join h.trace hbefore hjoin fun s hs hxs => ?_
    rw [h.labels _ hxs, hpending, hlabel, hwaits s hs hxs]
  exits := by rw [List.map_append, hexits, h.exits, exitsAll]
  waits := by
    refine List.forall_mem_append.2 ⟨fun s hs hexit => ?_, fun t ht hexit => ?_⟩
    · obtain ⟨hxs, hnone⟩ := hone.eq_none_of_lastExit h.trace hs hexit
      have hended := h.ended hnone
      rw [hpending] at hended
      rw [hwaits s hs hxs, hended, hout]
    · exact h.waits t ht (hone.eq_exit_of_lastExit h.trace ht hexit)
  ended hn := absurd hn (Option.some_ne_none _)
  labels := by
    rintro b rfl
    rw [hone.labelsFrom_join h.trace (hbefore b rfl) hjoin, behind_cons hi]
    rfl

/-- What a list hands on that goes on from a cell before it. -/
def Chained (c : Chain) (k : Canvas) (before : Option Nat) (out : Behind) (is : List Instruction)
    (ends : Ends) (cs : List Cell) : Prop :=
  ∃ entry exit ss, ends.entry = c.entry.or (entry.map cellId) ∧
    ends.exit = (lastExit before entry exit).map cellId ∧
      Goes c k before out is entry exit cs ss

lemma Chained.aside {d : Chain} {ends : Ends} (h : Chained d (k.add cs) before out rest ends cs₁)
    (hi : i.isAside = true)
    (hpending : behind out c.pending (i :: rest) = behind out d.pending rest)
    (hentry : d.entry = c.entry) (hlabel : d.exitLabel = c.exitLabel)
    (hbefore : ∀ b, before = some b → b ≤ k.count) (hcs : Closed k (fun _ => False) cs []) :
    Chained c k before out (i :: rest) ends (cs ++ cs₁) := by
  obtain ⟨entry, exit, ss, hentry', hexit, hgoes⟩ := h
  exact ⟨entry, exit, ss, hentry ▸ hentry', hexit, hgoes.aside hi hpending hlabel hbefore hcs⟩

/-- A list without a cell before it hands on its own ends. -/
lemma Chained.traced {ends : Ends} (hentry : c.entry = none)
    (h : Chained c k none out is ends cs) :
    Traced k (exitsAll out is) (out.labels none) ends cs := by
  obtain ⟨entry, exit, ss, hentry', hexit, hgoes⟩ := h
  have hends : ends = ⟨entry.map cellId, exit.map cellId⟩ := by
    cases ends with
    | mk e x =>
      obtain rfl : e = _ := hentry'
      obtain rfl : x = _ := hexit
      rw [hentry, Option.none_or]
      cases hcases : entry with
      | none => rw [hgoes.trace.no_flow hcases]; rfl
      | some _ => rfl
  exact ⟨entry, exit, ss, hends, hgoes.trace, hgoes.exits, hgoes.waits⟩

end Instruction
end Activity

/-! ## Branches and bodies with loops

A list inside an instruction is joined by plain connectors to the cells around it.  So a loop at the
end of a branch or of the body of another loop is left by a connector without a label.  A loop is
left at its decision, to which the list around it joins what follows. -/

namespace Activity

open Cell Sketch

variable {k : Canvas} {cs : List Cell}

namespace Instruction

variable {c : Chain} {before entry exit : Option Nat} {out : Behind} {i : Instruction}
  {is rest : List Instruction} {ss tt : List Spot} {cs₁ cs₂ : List Cell}

section Parts

variable {α : Type} {sketch : Sketch Ends} {rest : Sketch α} {es : List Exit}
  {source target : Nat} {R : α → List Cell → Prop}

/-- A branch of a decision is drawn and joined to the decision and to the place where branches
meet. -/
lemma appends_branch (hsketch : sketch.Appends k (Traced k es [""])) (label : Option String)
    (hsource : source ≤ k.count) (htarget : target ≤ k.count)
    (hrest : ∀ cs ss, Closed k (fun n => n = source ∨ n = target) cs ss →
      ss.map Spot.toExit = es → rest.Appends (k.add cs) fun a cs' => R a (cs ++ cs')) :
    (do
      let ends ← sketch
      drawPlain (cellId source) (ends.entry.or (cellId target)) label
      if ends.entry.isSome then drawPlain ends.exit (cellId target) none
      rest : Sketch α).Appends k R := by
  refine hsketch.bind ?_
  rintro _ cs ⟨entry, exit, ss, rfl, htrace, hexits, hwaits⟩
  have hinto : (entry.map cellId).or (some (cellId target)) =
      (entry.or (some target)).map cellId := by
    cases entry <;> rfl
  have hor : ∀ n, entry.or (some target) = some n → entry = some n ∨ n = target := by
    intro n hn
    cases entry with
    | none => exact .inr (Option.some.inj hn).symm
    | some _ => exact .inl hn
  refine (appends_drawPlain (a := some source) rfl hinto _ _).bind fun _ cs₁ hin => ?_
  cases entry with
  | none =>
    obtain rfl := htrace.no_flow rfl
    have hclosed := htrace.close hwaits hsource htarget hin hor (leads_none (.inl rfl) _)
    rw [List.append_nil] at hclosed
    simpa using hrest _ ss hclosed hexits
  | some e =>
    refine (appends_drawPlain (b := some target) rfl rfl _ _).bind fun _ cs₂ hout => ?_
    simpa using hrest _ ss (htrace.close hwaits hsource htarget hin hor hout) hexits

/-- A list is drawn and joined to a cell before it and to a cell behind it. -/
lemma appends_strand (hsketch : sketch.Appends k (Traced k es [""])) (label : Option String)
    (hsource : source ≤ k.count) (htarget : target ≤ k.count)
    (hrest : ∀ cs ss, Closed k (fun n => n = source ∨ n = target) cs ss →
      ss.map Spot.toExit = es → rest.Appends (k.add cs) fun a cs' => R a (cs ++ cs')) :
    (do
      let ends ← sketch
      drawPlain (cellId source) ends.entry label
      drawPlain ends.exit (cellId target) none
      rest : Sketch α).Appends k R := by
  refine hsketch.bind ?_
  rintro _ cs ⟨entry, exit, ss, rfl, htrace, hexits, hwaits⟩
  refine (appends_drawPlain (a := some source) rfl rfl _ _).bind fun _ cs₁ hin => ?_
  refine (appends_drawPlain (b := some target) rfl rfl _ _).bind fun _ cs₂ hout => ?_
  simpa using hrest _ ss (htrace.close hwaits hsource htarget hin (fun n => .inl) hout) hexits

end Parts

/-- What a loop has drawn: the loops in its body, all of which are left there, and its decision. -/
def Looped (k : Canvas) (old : Nat → Prop) (condition : String) (es : List Exit) (ends : Ends)
    (cs : List Cell) : Prop :=
  ∃ e d ss, ends = ⟨some (cellId e), some (cellId d)⟩ ∧ (Among k cs e ∨ old e) ∧ Among k cs d ∧
    (∃ c ∈ cs, IsBox c d condition) ∧ Closed k old cs ss ∧ ss.map Spot.toExit = es ∧
    ∀ s ∈ ss, s.diamond ≠ d

/-- A loop is drawn behind the shape at its start, if there is one. -/
lemma Looped.behind {old : List Cell} {start : Option Nat} {condition : String} {es : List Exit}
    {ends : Ends} (h : Looped (k.add old) (fun n => start = some n) condition es ends cs)
    (hold : Closed k (fun _ => False) old []) (hstart : ∀ n, start = some n → Among k old n) :
    Looped k (fun _ => False) condition es ends (old ++ cs) := by
  obtain ⟨e, d, ss, hends, he, hd, ⟨c, hmem, hc⟩, hclosed, hexits, hne⟩ := h
  refine ⟨e, d, ss, hends, ?_, hd.right, ⟨c, List.mem_append_right _ hmem, hc⟩,
    hold.seq hclosed fun n hn => .inl ⟨hstart n hn, List.forall_mem_nil _⟩, hexits, hne⟩
  exact .inl (he.elim Among.right fun he => (hstart e he).left)

/-- A loop around the loops in its body, which is left where the flow goes on. -/
lemma traced_loop {lanes : Keyed Rat} {cx y : Rat} {n : Node} {l : Loop}
    {body : List Instruction}
    (h : (draw lanes cx y (loop n l body)).Appends k
      (Looped k (fun _ => False) l.condition (exitsAll .close body))) (out : Behind) :
    (draw lanes cx y (loop n l body)).Appends k fun ends cs =>
      Traced k (exits out (loop n l body)) (out.labels l.exitLabel) ends cs ∧
        ends.entry.isSome = true := by
  refine h.run.imp ?_
  rintro _ cs ⟨hrun, e, d, ss, rfl, he, hd, hdiamond, hclosed, hexits, hne⟩
  have hlinks : Links (Among k cs) (Among k cs) cs :=
    hclosed.links.mono (fun n hn => hn.resolve_right id) (fun n hn => hn.resolve_right id)
  have hhosts : Hosts k cs (some d) (⟨⟨n, l, body, out⟩, k, cs, d⟩ :: ss) := by
    refine (hclosed.hosts.leave fun s hs heq => ?_).cons ?_ rfl rfl rfl hne
    · exact hne s hs (Option.some.inj heq).symm
    · exact ⟨⟨lanes, cx, y, cellId e, hrun⟩, hdiamond, hd, hlinks⟩
  refine ⟨⟨some e, some d, _, rfl, ⟨?_, ?_, nofun, ?_, hhosts⟩, ?_, ?_⟩, rfl⟩
  · rintro n ⟨⟩
    exact he.resolve_right id
  · rintro n ⟨⟩
    exact hd
  · exact hlinks.mono (fun n => .inl) fun n => id
  · rw [exits, List.map_cons, hexits]
  · refine List.forall_mem_cons.2 ⟨fun _ => rfl, fun s hs heq => ?_⟩
    exact absurd (Option.some.inj heq).symm (hne s hs)

/-- A list is drawn that is done again, with the decision before it. -/
lemma looped_before {sketch : Sketch Ends} {es : List Exit} {l : Loop} {b : Cell}
    (hb : IsBox b (k.count + 1) l.condition)
    (hsketch : sketch.Appends (k.add [b]) (Traced (k.add [b]) es [""])) :
    (do
      let ends ← sketch
      drawPlain (cellId (k.count + 1)) ends.entry l.againLabel
      match ends.exit with
      | some exit => drawBack exit (cellId (k.count + 1)) none
      | none => pure ()
      pure ⟨some (cellId (k.count + 1)), some (cellId (k.count + 1))⟩ : Sketch Ends).Appends
        (k.add [b]) fun ends cs => Looped k (fun _ => False) l.condition es ends ([b] ++ cs) := by
  refine hsketch.bind ?_
  rintro _ cs ⟨entry, exit, ss, rfl, htrace, hexits, hwaits⟩
  refine (appends_drawPlain (a := some (k.count + 1)) rfl rfl _ _).bind fun _ cs₁ hin => ?_
  have hlast : ∀ cs₂, Leads exit (some (k.count + 1)) "" cs₂ →
      Looped k (fun _ => False) l.condition es
        ⟨some (cellId (k.count + 1)), some (cellId (k.count + 1))⟩
          ([b] ++ (cs ++ (cs₁ ++ cs₂))) := by
    intro cs₂ hout
    have hle : k.count + 1 ≤ (k.add [b]).count := by simp
    have hamong : Among k [b] (k.count + 1) := by simp [Among]
    have hclosed := htrace.close hwaits hle hle hin (fun _ => .inl) hout
    refine ⟨_, _, ss, rfl, .inl hamong.left, hamong.left, ⟨b, by simp, hb⟩,
      (Closed.box hb fun _ => False.elim).seq hclosed ?_, hexits, htrace.hosts.ne_diamond hle⟩
    rintro n (rfl | rfl)
    · exact .inl ⟨hamong, List.forall_mem_nil _⟩
    · exact .inl ⟨hamong, List.forall_mem_nil _⟩
  dsimp only
  cases exit with
  | none => exact Appends.pure (hlast [] (leads_none (.inl rfl) _))
  | some x =>
    exact ((appends_drawBack x _ none _).imp fun _ => hlast).returns

/-- The cells of a list that is done again: a connector into it from the shape before it, if there
is one, the decision behind it, a connector to the decision and one back to the start. -/
lemma looped_of_trace {start : Option Nat} {d e : Nat} {b : Cell} {condition value : String}
    {cs₃ : List Cell} (h : Trace k none entry exit cs ss)
    (hwaits : ∀ s ∈ ss, exit = some s.diamond → s.labels = [""])
    (hstart : ∀ n, start = some n → n ≤ k.count) (hin : Leads start entry "" cs₁)
    (hb : IsBox b d condition) (hd : k.count + cs.length + cs₁.length + 1 = d)
    (hout : Leads exit d "" cs₂) (hback : Leads d e value cs₃)
    (he : start = some e ∨ entry = some e ∨ e = d) :
    Looped k (fun n => start = some n) condition (ss.map Spot.toExit)
      ⟨some (cellId e), some (cellId d)⟩ (cs ++ (cs₁ ++ ([b] ++ (cs₂ ++ cs₃)))) := by
  generalize htotal : cs ++ (cs₁ ++ ([b] ++ (cs₂ ++ cs₃))) = total
  have hlength := congrArg List.length htotal
  simp only [List.length_append, List.length_singleton] at hlength
  have hcs : ∀ n, Among k cs n → Among k total n := fun n hn => htotal ▸ hn.left
  have hamong : Among k total d := by
    unfold Among
    omega
  have htop : Among k total e ∨ start = some e := by
    rcases he with he | he | rfl
    · exact .inr he
    · exact .inl (hcs e (h.among_entry e he))
    · exact .inl hamong
  have hlinks : Links (fun n => Among k total n ∨ start = some n)
      (fun n => Among k total n ∨ start = some n) total := by
    rw [← htotal]
    refine (h.links.mono ?_ ?_).append ((hin.links.mono ?_ ?_).append
      ((hb.links _ _).append ((hout.links.mono ?_ ?_).append (hback.links.mono ?_ ?_)))) <;>
        rw [htotal]
    · rintro n (hn | ⟨⟨⟩⟩)
      exact .inl (hcs n hn)
    · exact fun n hn => .inl (hcs n hn)
    · exact fun n hn => .inr hn
    · exact fun n hn => .inl (hcs n (h.among_entry n hn))
    · exact fun n hn => .inl (hcs n (h.among_exit n hn))
    · rintro n ⟨⟩
      exact .inl hamong
    · rintro n ⟨⟩
      exact .inl hamong
    · rintro n ⟨⟩
      exact htop
  have hhosts : Hosts k total none ss := by
    refine htotal ▸ h.hosts.close h.links ?_ hwaits fun n hn => ?_
    · rintro n (hn | ⟨⟨⟩⟩)
      exact hn.2
    · have hne : start ≠ some n := fun h => absurd hn.1 (Nat.not_lt.2 (hstart n h))
      have hne' : d ≠ n := by
        have := hn.2
        omega
      simp only [labelsFrom_append, hin.labels, hb.labelsFrom_eq_nil, hout.labels, hback.labels]
      simp [hne, hne']
  refine ⟨e, d, ss, rfl, htop, hamong, ⟨b, ?_, hb⟩, ⟨hstart, hlinks, hhosts⟩, rfl, ?_⟩
  · simp [← htotal]
  · intro s hs heq
    have := (h.hosts.among hs).2
    omega

/-- A list is drawn that is done again, with the decision behind it; the list may have a shape
before it. -/
lemma looped_again {sketch : Sketch Ends} {es : List Exit} (start : Option Nat)
    (hstart : ∀ n, start = some n → n ≤ k.count) (hsketch : sketch.Appends k (Traced k es [""]))
    (l : Loop) (cx y : Rat) :
    (do
      let ends ← sketch
      drawPlain (start.map cellId) ends.entry none
      let diamond ← drawDiamond l.condition l.color cx y
      drawPlain ends.exit diamond none
      let top := ((start.map cellId).or ends.entry).getD diamond
      drawBack diamond top l.againLabel
      pure ⟨some top, some diamond⟩ : Sketch Ends).Appends k
        (Looped k (fun n => start = some n) l.condition es) := by
  refine hsketch.bind ?_
  rintro _ cs ⟨entry, exit, ss, rfl, htrace, rfl, hwaits⟩
  refine (appends_drawPlain rfl rfl _ _).bind fun _ cs₁ hin => ?_
  refine (appends_drawDiamond _ _ _ _ _).bind ?_
  rintro _ _ ⟨rfl, b, rfl, hb⟩
  generalize hd : ((k.add cs).add cs₁).count + 1 = d at hb ⊢
  simp only [Canvas.count_add] at hd
  refine (appends_drawPlain (b := some d) rfl rfl _ _).bind fun _ cs₂ hout => ?_
  obtain ⟨e, htop, he⟩ : ∃ e,
      ((start.map cellId).or (entry.map cellId)).getD (cellId d) = cellId e ∧
        (start = some e ∨ entry = some e ∨ e = d) := by
    cases start with
    | some s => exact ⟨s, rfl, .inl rfl⟩
    | none =>
      cases entry with
      | some e => exact ⟨e, rfl, .inr (.inl rfl)⟩
      | none => exact ⟨d, rfl, .inr (.inr rfl)⟩
  have hback : ∀ k' top, top = cellId e → (do
      drawBack (cellId d) top l.againLabel
      pure ⟨some top, some (cellId d)⟩ : Sketch Ends).Appends k' fun ends cs₃ =>
        Looped k (fun n => start = some n) l.condition (ss.map Spot.toExit) ends
          (cs ++ (cs₁ ++ ([b] ++ (cs₂ ++ cs₃)))) := by
    rintro k' _ rfl
    refine ((appends_drawBack d e _ k').imp fun _ cs₃ hback => ?_).returns
    exact looped_of_trace htrace hwaits hstart hin hb hd hout hback he
  exact hback _ _ htop

/-- A list inside an instruction, whose end is joined by a plain connector. -/
lemma appends_body {sketch : Sketch Ends} (hentry : c.entry = none)
    (h : sketch.Appends k (Chained c k none .close is)) :
    sketch.Appends k (Traced k (exitsAll .close is) [""]) :=
  h.imp fun _ _ h => h.traced hentry

lemma exitsAll_of_all_isLeave (h : is.all isLeave = true) (out : Behind) :
    exitsAll out is = [] := by
  induction is with
  | nil => rfl
  | cons i rest ih =>
    rw [List.all_cons, Bool.and_eq_true] at h
    rw [exitsAll, ih h.2, List.append_nil]
    cases i with
    | step n s => rfl
    | _ => cases h.1

/-- Two shapes are drawn, and loops with a flow between the two. -/
lemma traced_between {b b' : Cell} {value value' : String} (hb : IsBox b (k.count + 1) value)
    (hb' : IsBox b' ((k.add [b]).count + 1) value')
    (h : Closed ((k.add [b]).add [b'])
      (fun n => n = k.count + 1 ∨ n = (k.add [b]).count + 1) cs ss) (labels : List String) :
    Traced k (ss.map Spot.toExit) labels
      ⟨some (cellId (k.count + 1)), some (cellId ((k.add [b]).count + 1))⟩
        ([b] ++ ([b'] ++ cs)) := by
  have hfirst : Among k [b] (k.count + 1) := by simp [Among]
  have hsecond : Among (k.add [b]) [b'] ((k.add [b]).count + 1) := by simp [Among]
  have hbox' : Closed (k.add [b]) (fun n => n = k.count + 1) [b'] [] := by
    refine Closed.box hb' ?_
    rintro n rfl
    simp
  have hclosed := (Closed.box (k := k) hb fun _ => False.elim).seq (hbox'.seq h ?_) ?_
  · exact hclosed.traced hfirst.left hsecond.left.right (h.hosts.ne_diamond (by simp)) labels
  · rintro n (rfl | rfl)
    · exact .inr rfl
    · exact .inl ⟨hsecond, List.forall_mem_nil _⟩
  · rintro n rfl
    exact .inl ⟨hfirst, List.forall_mem_nil _⟩

/-- A further decision is drawn and joined to the one before it, and then its branch and the
branches behind it. -/
lemma closed_further {b : Cell} {condition value : String} {before merge : Nat}
    {cs₃ : List Cell} (hb : IsBox b (k.count + 1) condition) (hbefore : before ≤ k.count)
    (hmerge : merge ≤ k.count) (hin : Leads before (some (k.count + 1)) value cs₁)
    (h₂ : Closed ((k.add [b]).add cs₁) (fun n => n = k.count + 1 ∨ n = merge) cs₂ ss)
    (h₃ : Closed (((k.add [b]).add cs₁).add cs₂) (fun n => n = k.count + 1 ∨ n = merge) cs₃ tt) :
    Closed k (fun n => n = before ∨ n = merge) ([b] ++ (cs₁ ++ (cs₂ ++ cs₃))) (ss ++ tt) := by
  have hdiamond : Among k [b] (k.count + 1) := by simp [Among]
  have hbox : Closed k (fun n => n = before ∨ n = merge) [b] [] := by
    refine Closed.box hb ?_
    rintro n (rfl | rfl)
    · exact hbefore
    · exact hmerge
  have hjoin : Closed (k.add [b]) (fun n => n = k.count + 1 ∨ n = before ∨ n = merge) cs₁ [] := by
    refine Closed.leads hin ?_ ?_ ?_
    · rintro n (rfl | hn)
      · simp
      · exact hbox.old_le_add hn
    · rintro n ⟨⟩
      exact .inr (.inl rfl)
    · rintro n ⟨⟩
      exact .inl rfl
  refine hbox.seq (hjoin.seq (h₂.seq h₃ fun n => .inr) ?_) ?_
  · exact fun n hn => .inr (hn.imp_right .inr)
  · rintro n (rfl | hn)
    · exact .inl ⟨hdiamond, List.forall_mem_nil _⟩
    · exact .inr hn

end Instruction
end Activity
end UmlDraw
