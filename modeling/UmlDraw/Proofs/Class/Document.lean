/-
# Documents in class diagrams

A document is read line by line up to the place where its brackets are closed, and all brackets are
counted, those in strings too.  So it is read as it stands there if and only if the count is not
disturbed by its strings.

The main statements are

* `Line.read?_header`: the line in which a document begins;
* `Reader.foldl_document`: the lines of a document, while a bracket is open;
* `Json.Prints.balanced`: strings alone disturb the count;
* `Diagram.read_documentText`: what a document is read as.
-/
import UmlDraw.Class.Reader
import UmlDraw.Proofs.Data.Printing
import UmlDraw.Proofs.Text.Lines
import UmlDraw.Proofs.Text.Reading

namespace UmlDraw

open Scan

namespace Class
namespace Line

variable {β : Type} {x : List Char}

lemma isBlank_of_isCode {c : Char} (h : Label.isCode c = true) : Letter.isBlank c = false := by
  cases hblank : Letter.isBlank c with
  | false => rfl
  | true =>
    rcases Bool.or_eq_true_iff.1 h with h | h
    · rw [Letter.isWord_of_isBlank hblank] at h
      cases h
    · rw [beq_iff_eq.1 h] at hblank
      exact absurd hblank (by decide)

/-- The longest code is read where nothing can follow a shorter one. -/
lemma run_code {d : Char} {s : List Char} (hx : x ≠ []) (hcode : ∀ c ∈ x, Label.isCode c = true)
    (hd : Label.isCode d = false) {next : String → List Char → Option β}
    (hnext : ∀ w c u, Label.isCode c = true → next w (c :: u) = none) :
    Token.code.run (x ++ d :: s) next = next (String.ofList x) (d :: s) := by
  have htake : (x ++ d :: s).takeWhile Label.isCode = x := by
    rw [List.takeWhile_append_of_pos hcode, List.takeWhile_cons_of_neg (by simp [hd]),
      List.append_nil]
  have hdrop : (x ++ d :: s).dropWhile Label.isCode = d :: s := by
    rw [List.dropWhile_append_of_pos hcode, List.dropWhile_cons_of_neg (by simp [hd])]
  have hrun := run_many1 hnext (s := x ++ d :: s) (by rwa [htake])
  rwa [htake, hdrop] at hrun

/-- The word `as` does not begin inside a code. -/
lemma run_asWord_code {c : Char} (hc : Label.isCode c = true) (u : List Char)
    (next : Unit → List Char → Option β) : Token.asWord.run (c :: u) next = none := by
  change (if Letter.isBlank c then _ else none) = none
  rw [isBlank_of_isCode hc]
  rfl

lemma split_plain (hx : x ≠ []) (hcode : ∀ c ∈ x, Label.isCode c = true) :
    Name.split nameForms (x ++ [' ', '\x7b']) =
      some (⟨String.ofList x, String.ofList x⟩, ['\x7b']) := by
  have htrim : Chars.trim (x ++ [' ', '\x7b']) = x ++ [' ', '\x7b'] := by
    rw [Chars.trim, Chars.trimLeft_of_head, Chars.trimRight_of_getLast]
    · simp; decide
    · obtain ⟨c, m, rfl⟩ := List.exists_cons_of_ne_nil hx
      rintro d hd
      obtain rfl := Option.some.inj hd
      exact isBlank_of_isCode (hcode c List.mem_cons_self)
  have hquoted : ∀ {γ : Type} (next : String → List Char → Option γ),
      Token.quoted.run (x ++ [' ', '\x7b']) next = none := by
    intro γ next
    obtain ⟨c, m, rfl⟩ := List.exists_cons_of_ne_nil hx
    have hc : c ≠ '"' := by
      rintro rfl
      exact absurd (hcode _ List.mem_cons_self) (by decide)
    have hrun : ∀ s, Token.quoted.run s next = (char '"').run s fun _ rest =>
        (many1 (· != '"')).run rest fun w rest => (char '"').run rest fun _ rest => next w rest :=
      fun _ => rfl
    rw [hrun]
    exact run_char_of_ne hc _ _
  have hcodeAs : ∀ {γ : Type} (next : String → List Char → Option γ),
      Token.code.run (x ++ [' ', '\x7b']) (fun s rest => Token.asWord.run rest fun _ => next s)
        = none := by
    intro γ next
    rw [run_code hx hcode (by decide) fun w c u hc => run_asWord_code hc u _]
    rfl
  have hcodeAlone : Name.codeAlone.run (x ++ [' ', '\x7b']) (fun a rest => some (a, rest)) =
      some (⟨String.ofList x, String.ofList x⟩, [' ', '\x7b']) := by
    obtain ⟨c, m, rfl⟩ := List.exists_cons_of_ne_nil hx
    obtain ⟨hc, hm⟩ := List.forall_mem_cons.1 hcode
    change (if Label.isCode c then longest _ _ [c] (m ++ [' ', '\x7b']) else none) = _
    rw [hc, if_pos rfl]
    refine longest_append hm [c] ?_
    simp [longest, (by decide : Label.isCode ' ' = false)]
  have hstart : (anyOf nameForms).start (x ++ [' ', '\x7b']) =
      some (⟨String.ofList x, String.ofList x⟩, [' ', '\x7b']) := by
    have hquotedAsCode : ∀ {γ : Type} (next : Name → List Char → Option γ),
        Name.quotedAsCode.run (x ++ [' ', '\x7b']) next = none := fun _ => hquoted _
    have hcodeAsQuoted : ∀ {γ : Type} (next : Name → List Char → Option γ),
        Name.codeAsQuoted.run (x ++ [' ', '\x7b']) next = none := fun next =>
      hcodeAs fun s rest => Token.quoted.run rest fun display rest => next ⟨s, display⟩ rest
    have hplainAsCode : ∀ {γ : Type} (next : Name → List Char → Option γ),
        Name.plainAsCode.run (x ++ [' ', '\x7b']) next = none := fun next =>
      hcodeAs fun s rest => Token.code.run rest fun code rest => next ⟨code, s⟩ rest
    have hquotedAlone : ∀ {γ : Type} (next : Name → List Char → Option γ),
        Name.quotedAlone.run (x ++ [' ', '\x7b']) next = none := fun _ => hquoted _
    simp only [nameForms, start, anyOf, run_either, hquotedAsCode, hcodeAsQuoted, hplainAsCode,
      hquotedAlone, hcodeAlone, Option.none_or, Option.some_or]
  rw [Name.split, htrim, hstart]
  rfl

/-- The keyword of a document is taken in front of a blank. -/
lemma takes_json (s : List Char) : (Keyword.scan EntityKind.keywords).Takes
    ('j' :: 's' :: 'o' :: 'n' :: ' ' :: s) (.ok .json) (' ' :: s) := by
  intro β next b hb
  have hwritten : ∀ next' : String → List Char → Option β,
      (captured (Token.phrase ["json"])).run ('j' :: 's' :: 'o' :: 'n' :: ' ' :: s) next' =
        next' (String.ofList (('j' :: 's' :: 'o' :: 'n' :: ' ' :: s).take
          ((' ' :: s).length + 4 - (' ' :: s).length))) (' ' :: s) := fun _ => rfl
  have hsplit : (EntityKind.keywords.map fun (words, _) => captured (Token.phrase words)) =
      ((EntityKind.keywords.take 18).map fun (words, _) => captured (Token.phrase words)) ++
        [captured (Token.phrase ["json"]), captured (Token.phrase ["map"])] := rfl
  have hbefore : ∀ next' : String → List Char → Option β,
      (anyOf ((EntityKind.keywords.take 18).map fun (words, _) =>
        captured (Token.phrase words))).run ('j' :: 's' :: 'o' :: 'n' :: ' ' :: s) next' = none :=
    fun _ => rfl
  have hfound : Keyword.find EntityKind.keywords (Keyword.wordsOf "json") = .ok .json := by rfl
  have hscan : ∀ s, (Keyword.scan EntityKind.keywords).run s next =
      (anyOf (EntityKind.keywords.map fun (words, _) => captured (Token.phrase words))).run s
        fun written rest => next (Keyword.find EntityKind.keywords (Keyword.wordsOf written)) rest :=
    fun _ => rfl
  rw [hscan, hsplit, run_anyOf_append (hbefore _)]
  refine run_anyOf_cons ?_ _
  rw [hwritten, Nat.add_sub_cancel_left]
  exact (congrArg (next · _) hfound).trans hb

lemma whole_declarationHead {c : Char} {s : List Char} (hc : Letter.isBlank c = false)
    (hs : '\n' ∉ c :: s) :
    declarationHead.whole ("json ".toList ++ c :: s) = some (.ok .json, String.ofList (c :: s)) := by
  refine Takes.whole (Takes.bind (takes_json (c :: s)) ?_)
  refine Takes.bind (p := blanks1) (a := ()) (t := c :: s) ?_ ?_
  · intro β next b hb
    have hrest : longest Letter.isBlank (fun _ => next ()) [] (c :: s) = some b := by
      rw [longest, hc, if_neg Bool.false_ne_true, hb]
    exact hrest
  · refine Takes.bind (p := Token.rest) (a := String.ofList (c :: s)) (t := []) ?_ (takes_pure _ _)
    intro β next b hb
    have hall : ∀ d ∈ c :: s, inLine d = true := fun d hd => by
      rw [inLine, bne_iff_ne]
      rintro rfl
      exact hs hd
    have hlongest : longest inLine (fun seen rest => atEnd.run rest fun _ rest =>
        next (String.ofList seen.reverse) rest) [] (c :: s ++ []) = some b := by
      refine longest_append hall [] ?_
      rw [List.append_nil, longest, List.reverse_reverse]
      exact hb
    rwa [List.append_nil] at hlongest


/-- The line in which a document begins. -/
def header (name : String) : List Char :=
  "json ".toList ++ (name.toList ++ [' ', '\x7b'])

/-- The entity of a document. -/
def documentEntity (name : String) (document : Option Document) : Entity :=
  { code := name, display := name, kind := .json, document := document }

lemma read?_header {name : String} (hne : name ≠ "")
    (hcode : ∀ c ∈ name.toList, Label.isCode c = true) :
    read? (header name) = some (.declare (documentEntity name none) true) := by
  have hx : name.toList ≠ [] := by simpa using hne
  have hfirst : (anyOf firstForms).whole (header name) = none := rfl
  have hdeclaration : declaration? (header name) =
      some (.declare (documentEntity name none) true) := by
    have hsplit := split_plain hx hcode
    obtain ⟨c, m, hname⟩ := List.exists_cons_of_ne_nil hx
    have hc : Letter.isBlank c = false :=
      isBlank_of_isCode (hcode c (by rw [hname]; exact List.mem_cons_self))
    have hline : '\n' ∉ name.toList ++ [' ', '\x7b'] := by
      intro hmem
      rcases List.mem_append.1 hmem with hmem | hmem
      · exact absurd (hcode _ hmem) (by decide)
      · exact absurd hmem (by decide)
    rw [hname] at hline hsplit
    have hhead := whole_declarationHead (s := m ++ [' ', '\x7b']) hc hline
    have hheader : header name = "json ".toList ++ c :: (m ++ [' ', '\x7b']) := by
      rw [header, hname, List.cons_append]
    have hsplit' : Name.split nameForms (String.ofList (c :: (m ++ [' ', '\x7b']))).toList =
        some (⟨name, name⟩, ['\x7b']) := by
      rw [String.toList_ofList, ← List.cons_append, hsplit, ← hname, String.ofList_toList]
    rw [hheader, declaration?, hhead, Option.bind_eq_bind, Option.bind_some]
    change (Name.split nameForms (String.ofList (c :: (m ++ [' ', '\x7b']))).toList).bind _ = _
    rw [hsplit']
    rfl
  rw [read?, hfirst, hdeclaration]
  rfl

end Line

namespace Reader

variable {r : Reader} {e : Entity} {d : Int} {lines : List (List Char)} {s t : List Char}

/-! ### Counting brackets -/

@[simp]
lemma openBrackets_nil : openBrackets [] = 0 := rfl

@[simp]
lemma openBrackets_append (s t : List Char) :
    openBrackets (s ++ t) = openBrackets s + openBrackets t := by
  simp only [openBrackets, List.count_append]
  omega

lemma openBrackets_cons (c : Char) (s : List Char) :
    openBrackets (c :: s) = openBrackets [c] + openBrackets s :=
  openBrackets_append [c] s

/-- A character that is no bracket does not count. -/
def isBracket (c : Char) : Bool :=
  c == '\x7b' || c == '[' || c == '\x7d' || c == ']'

lemma openBrackets_of_noBracket (h : ∀ c ∈ s, isBracket c = false) : openBrackets s = 0 := by
  have hcount : ∀ b, isBracket b = true → s.count b = 0 := fun b hb =>
    List.count_eq_zero.2 fun hmem => by simp [h b hmem] at hb
  rw [openBrackets, hcount '\x7b' (by decide), hcount '[' (by decide), hcount '\x7d' (by decide),
    hcount ']' (by decide)]
  rfl

lemma noBracket_of_isBlank {c : Char} (h : Letter.isBlank c = true) : isBracket c = false := by
  cases hbracket : isBracket c with
  | false => rfl
  | true =>
    simp only [isBracket, Bool.or_eq_true, beq_iff_eq] at hbracket
    rcases hbracket with ((rfl | rfl) | rfl) | rfl <;> cases h

lemma openBrackets_of_blank (h : ∀ c ∈ s, Letter.isBlank c = true) : openBrackets s = 0 :=
  openBrackets_of_noBracket fun c hc => noBracket_of_isBlank (h c hc)

lemma openBrackets_seen (s : List Char) : openBrackets (Source.seen s).text = openBrackets s := by
  obtain ⟨w, w', hs, hw, hw'⟩ := Source.exists_seen s
  have hopened := congrArg openBrackets hs
  rw [openBrackets_append, openBrackets_append, openBrackets_of_blank hw,
    openBrackets_of_blank hw', Int.zero_add, Int.add_zero] at hopened
  exact hopened.symm

/-! ### The lines of a document -/

/-- The body of a document is open. -/
def InDocument (r : Reader) : Prop :=
  ∃ e d lines, r.body = some (.document e d lines)

/-- The first line opens a document, the last one closes it, and those between them belong to it. -/
def ReadWhole (r : Reader) (ls : List SourceLine) : Prop :=
  (∀ k, 0 < k → k < ls.length → ((ls.take k).foldl step r).InDocument) ∧
    (ls.foldl step r).body = none

/-- The texts of lines that are not blank. -/
def filled (ls : List SourceLine) : List (List Char) :=
  (ls.map SourceLine.text).filter fun s => !s.isEmpty

/-- The brackets that lines open. -/
def opened (ls : List SourceLine) : Int :=
  openBrackets (ls.flatMap SourceLine.text)

lemma step_of_open {l : SourceLine} (hr : r.body = some (.document e d lines))
    (hd : 0 < d + openBrackets l.text) : r.step l =
      { r with body := some (.document e (d + openBrackets l.text) (lines ++ filled [l])) } := by
  rw [step, hr]
  simp only
  by_cases hblank : l.text = []
  · rw [if_pos (by rw [hblank]; rfl)]
    simp [filled, hblank, ← hr]
  · rw [if_neg (by simpa using hblank), documentLine, if_neg (by omega)]
    simp [filled, hblank]

lemma body_step_of_closed {l : SourceLine} (hr : r.body = some (.document e d lines)) (hd : 0 < d)
    (hclosed : d + openBrackets l.text ≤ 0) : (r.step l).body = none := by
  have htext : l.text.isEmpty = false := by
    cases hempty : l.text with
    | nil =>
      rw [hempty, openBrackets_nil] at hclosed
      omega
    | cons _ _ => rfl
  rw [step, hr]
  simp only
  rw [if_neg (by simp [htext]), documentLine, if_pos hclosed]
  rfl

/-- While a bracket is open, the lines of a document are collected. -/
theorem foldl_document (ls : List SourceLine) (hr : r.body = some (.document e d lines))
    (h : ∀ k, 0 < d + opened (ls.take k)) : ls.foldl step r =
      { r with body := some (.document e (d + opened ls) (lines ++ filled ls)) } := by
  induction ls generalizing r d lines with
  | nil => simp [opened, filled, ← hr]
  | cons l ls ih =>
    have hopened : ∀ ls, opened (l :: ls) = openBrackets l.text + opened ls := fun ls => by
      simp [opened]
    have hfilled : filled (l :: ls) = filled [l] ++ filled ls := by
      rw [filled, filled, ← List.singleton_append, List.map_append, List.filter_append]
      rfl
    have hl : 0 < d + openBrackets l.text := by simpa [opened] using h 1
    rw [List.foldl_cons, step_of_open hr hl, ih rfl, hopened, hfilled, ← List.append_assoc,
      Int.add_assoc]
    intro k
    have hk := h (k + 1)
    rw [List.take_succ_cons, hopened] at hk
    omega

/-- A document is open behind all of its lines if and only if a bracket is. -/
lemma inDocument_iff (ls : List SourceLine) (hr : r.body = some (.document e d lines))
    (hd : 0 < d) :
    (∀ k, ((ls.take k).foldl step r).InDocument) ↔ ∀ k, 0 < d + opened (ls.take k) := by
  constructor
  · intro h
    induction ls generalizing r d lines with
    | nil => simpa [opened] using hd
    | cons l ls ih =>
      have hl : 0 < d + openBrackets l.text := by
        refine Int.not_le.1 fun hclosed => ?_
        obtain ⟨_, _, _, hbody⟩ := h 1
        rw [List.take_succ_cons, List.take_zero, List.foldl_cons, List.foldl_nil,
          body_step_of_closed hr hd hclosed] at hbody
        cases hbody
      have hrest := ih (r := r.step l) (by rw [step_of_open hr hl]) hl fun k => h (k + 1)
      intro k
      cases k with
      | zero => simpa [opened] using hd
      | succ k =>
        have hk := hrest k
        simp only [List.take_succ_cons, opened, List.flatMap_cons, openBrackets_append] at hk ⊢
        omega
  · intro h k
    rw [foldl_document _ hr fun j => by rw [List.take_take]; exact h _]
    exact ⟨e, _, _, rfl⟩

/-! ### Balanced texts -/

/-- A text closes the brackets that it opens, and no others. -/
structure Balanced (s : List Char) : Prop where
  whole : openBrackets s = 0
  start : ∀ k, 0 ≤ openBrackets (s.take k)

namespace Balanced

lemma nil : Balanced [] :=
  ⟨rfl, fun k => by simp⟩

lemma append (hs : Balanced s) (ht : Balanced t) : Balanced (s ++ t) := by
  refine ⟨by rw [openBrackets_append, hs.whole, ht.whole]; rfl, fun k => ?_⟩
  rw [List.take_append, openBrackets_append]
  exact Int.add_nonneg (hs.start _) (ht.start _)

lemma of_noBracket (h : ∀ c ∈ s, isBracket c = false) : Balanced s :=
  ⟨openBrackets_of_noBracket h, fun _ =>
    Int.le_of_eq (openBrackets_of_noBracket fun c hc => h c (List.mem_of_mem_take hc)).symm⟩

lemma cons {c : Char} (hc : isBracket c = false) (hs : Balanced s) : Balanced (c :: s) :=
  (of_noBracket (s := [c]) (List.forall_mem_singleton.2 hc)).append hs

/-- A bracket that is opened and closed again. -/
lemma enclose {a b : Char} (ha : openBrackets [a] = 1) (hb : openBrackets [b] = -1)
    (hs : Balanced s) : Balanced (a :: (s ++ [b])) := by
  constructor
  · rw [openBrackets_cons, openBrackets_append, ha, hb, hs.whole]
    rfl
  · intro k
    cases k with
    | zero => exact Int.le_refl _
    | succ k =>
      have hlast : -1 ≤ openBrackets (List.take (k - s.length) [b]) := by
        cases k - s.length with
        | zero => exact (by decide : (-1 : Int) ≤ 0)
        | succ j => simp [hb]
      have hstart := hs.start k
      rw [List.take_succ_cons, List.take_append, openBrackets_cons, openBrackets_append, ha]
      omega

/-- No place in the text stands behind a bracket that it closes only. -/
lemma of_append (h : Balanced (s ++ t)) : 0 ≤ openBrackets s := by
  have hstart := h.start s.length
  rwa [List.take_left] at hstart

end Balanced

end Reader

end Class

namespace Json

open Class.Reader (Balanced isBracket)

variable {P : List Char → Prop}

lemma noBracket_of_isNumberChar {c : Char} (h : isNumberChar c = true) : isBracket c = false := by
  cases hbracket : isBracket c with
  | false => rfl
  | true =>
    simp only [isBracket, Bool.or_eq_true, beq_iff_eq] at hbracket
    rcases hbracket with ((rfl | rfl) | rfl) | rfl <;> exact absurd h (by decide)

lemma Spaces.balanced {w : List Char} (hw : Spaces w) : Balanced w :=
  .of_noBracket fun c hc => Class.Reader.noBracket_of_isBlank (isBlank_of_isSpace (hw c hc))

mutual

/-- The brackets outside of strings are balanced, so those of a printing are if those of each string
are. -/
theorem Prints.balanced (hP : ∀ raw, P raw → Balanced raw) {v : Json} {s : List Char}
    (h : Prints P v s) : Balanced s := by
  match h with
  | .null => exact .of_noBracket (by decide)
  | .yes => exact .of_noBracket (by decide)
  | .no => exact .of_noBracket (by decide)
  | .number h =>
    exact .of_noBracket fun c hc => noBracket_of_isNumberChar ((isNumberChar_of_readNumber h).2 c hc)
  | .string _ hraw => exact .cons (by decide) ((hP _ hraw).append (.of_noBracket (by decide)))
  | .emptyArray hw => exact hw.balanced.enclose (by decide) (by decide)
  | .array h => exact (h.balanced hP).enclose (by decide) (by decide)
  | .emptyObject hw => exact hw.balanced.enclose (by decide) (by decide)
  | .object h => exact (h.balanced hP).enclose (by decide) (by decide)

theorem PrintsPadded.balanced (hP : ∀ raw, P raw → Balanced raw) {v : Json} {s : List Char}
    (h : PrintsPadded P v s) : Balanced s := by
  match h with
  | .mk hw h hw' => exact hw.balanced.append ((h.balanced hP).append hw'.balanced)

theorem PrintsItems.balanced (hP : ∀ raw, P raw → Balanced raw) {vs : List Json} {s : List Char}
    (h : PrintsItems P vs s) : Balanced s := by
  match h with
  | .last h => exact h.balanced hP
  | .more h hrest => exact (h.balanced hP).append (.cons (by decide) (hrest.balanced hP))

theorem PrintsEntries.balanced (hP : ∀ raw, P raw → Balanced raw) {es : List (String × Json)}
    {s : List Char} (h : PrintsEntries P es s) : Balanced s := by
  match h with
  | .last hw _ hraw hw' h =>
    exact hw.balanced.append (.cons (by decide) ((hP _ hraw).append (.cons (by decide)
      (hw'.balanced.append (.cons (by decide) (h.balanced hP))))))
  | .more hw _ hraw hw' h hrest =>
    exact hw.balanced.append (.cons (by decide) ((hP _ hraw).append (.cons (by decide)
      (hw'.balanced.append (.cons (by decide) ((h.balanced hP).append
        (.cons (by decide) (hrest.balanced hP))))))))

end

/-- The text within the braces of an object is balanced too. -/
lemma Prints.balanced_inner (hP : ∀ raw, P raw → Balanced raw) {es : List (String × Json)}
    {inner : List Char} (h : Prints P (.object es) ('\x7b' :: (inner ++ ['\x7d']))) :
    Balanced inner := by
  generalize hs : '\x7b' :: (inner ++ ['\x7d']) = s at h
  have hinner : ∀ {w : List Char}, '\x7b' :: (inner ++ ['\x7d']) = '\x7b' :: (w ++ ['\x7d']) →
      inner = w := fun h => List.append_cancel_right (List.cons.inj h).2
  cases h with
  | emptyObject hw =>
    rw [hinner hs]
    exact hw.balanced
  | object h =>
    rw [hinner hs]
    exact h.balanced hP

end Json

/-! ### Texts of documents -/

namespace Class

open Reader

/-- Texts with a line feed before each but the first one, which is behind another text. -/
def behind (sep : List Char) : List (List Char) → List Char
  | [] => []
  | s :: rest => sep ++ (s ++ rest.flatMap ('\n' :: ·))

lemma behind_cons (sep s : List Char) (rest : List (List Char)) :
    behind sep (s :: rest) = sep ++ (s ++ behind ['\n'] rest) := by
  cases rest <;> rfl

lemma join_eq_behind (parts : List (List Char)) : Chars.join ['\n'] parts = behind [] parts := by
  induction parts with
  | nil => rfl
  | cons s rest ih =>
    cases rest with
    | nil => simp [Chars.join, behind]
    | cons next rest =>
      rw [Chars.join_cons_cons, ih]
      rfl

/-- The lines of a text that are not blank, joined again, are the text with other line breaks. -/
lemma respaced_lines {ps : List (List Char × List Char)} {w : List Char} (sep : List Char)
    (hbreaks : ∀ p ∈ ps, p.1 ∈ Source.breaks)
    (hlast : ∀ p ∈ ps.getLast?, ∀ c ∈ p.2, Letter.isBlank c = true)
    (hw : ∀ c ∈ w, Letter.isBlank c = true)
    (hend : ps = [] → ∃ c ∈ w, Json.isBreak c = true) (hsep : Json.Spaces sep) :
    Json.Respaced (w ++ ps.flatMap fun p => p.1 ++ p.2)
      (behind sep (filled ((ps.map Prod.snd).map Source.seen))) := by
  induction ps generalizing w sep with
  | nil => exact @Json.Respaced.gap _ [] _ _ hw (hend rfl) (fun _ h => nomatch h) .nil
  | cons p ps ih =>
    obtain ⟨b, s⟩ := p
    obtain ⟨hb, hps⟩ := List.forall_mem_cons.1 hbreaks
    have hbreak : ∃ c ∈ b, Json.isBreak c = true := by
      simp only [Source.breaks, List.mem_cons, List.not_mem_nil, or_false] at hb
      rcases hb with rfl | rfl | rfl <;> exact ⟨_, List.mem_cons_self, rfl⟩
    have hblank : ∀ c ∈ b, Letter.isBlank c = true := by
      simp only [Source.breaks, List.mem_cons, List.not_mem_nil, or_false] at hb
      rcases hb with rfl | rfl | rfl <;> decide
    have hlast' : ∀ p ∈ ps.getLast?, ∀ c ∈ p.2, Letter.isBlank c = true := fun q hq =>
      hlast q (by
        cases ps with
        | nil => cases hq
        | cons _ _ => simpa using hq)
    have hjoin : ∀ u, (∀ c ∈ u, Letter.isBlank c = true) →
        ∀ c ∈ w ++ b ++ u, Letter.isBlank c = true := fun u hu =>
      List.forall_mem_append.2 ⟨List.forall_mem_append.2 ⟨hw, hblank⟩, hu⟩
    have hjoinBreak : ∀ u, ∃ c ∈ w ++ b ++ u, Json.isBreak c = true := fun u => by
      obtain ⟨c, hc, hcbreak⟩ := hbreak
      exact ⟨c, by simp [hc], hcbreak⟩
    obtain ⟨u, u', hs, hu, hu'⟩ := Source.exists_seen s
    cases htext : (Source.seen s).text with
    | nil =>
      -- a blank line belongs to the blanks around it
      have hsblank : ∀ c ∈ s, Letter.isBlank c = true := by
        rw [hs, htext, List.nil_append]
        exact List.forall_mem_append.2 ⟨hu, hu'⟩
      have hrest := ih sep hps hlast' (hjoin s hsblank) (fun _ => hjoinBreak s) hsep
      simpa [filled, htext] using hrest
    | cons c t =>
      have hne : ps ≠ [] := by
        rintro rfl
        rw [Source.text_seen_of_blank (hlast (b, s) rfl)] at htext
        cases htext
      have hrest := ih ['\n'] hps hlast' hu' (fun h => absurd h hne)
        (List.forall_mem_singleton.2 rfl)
      have hbehind : behind sep (filled (((b, s) :: ps).map Prod.snd |>.map Source.seen)) =
          sep ++ (c :: t ++ behind ['\n'] (filled ((ps.map Prod.snd).map Source.seen))) := by
        simp only [List.map_cons, filled, htext, List.filter_cons, List.isEmpty_cons, Bool.not_false,
          if_true]
        exact behind_cons sep _ _
      have hsplit : w ++ ((b, s) :: ps).flatMap (fun p => p.1 ++ p.2) =
          (w ++ b ++ u) ++ (c :: t ++ (u' ++ ps.flatMap fun p => p.1 ++ p.2)) := by
        have hline : s = u ++ (c :: t ++ u') := hs.trans (by rw [htext])
        rw [List.flatMap_cons, hline]
        simp only [List.append_assoc]
      rw [hbehind, hsplit]
      exact .gap (hjoin u hu) (hjoinBreak u) hsep ((Json.Respaced.refl _).append hrest)

/-- The text of a document: braces with lines between them, none of which is removed. -/
structure DocumentText where
  name : String
  /-- What stands between the braces. -/
  inner : List Char
  /-- The lines between those of the braces. -/
  lines : List (List Char)
  name_ne : name ≠ ""
  isCode : ∀ c ∈ name.toList, Label.isCode c = true
  rawLines : ∃ first last, Source.rawLines inner = first :: (lines ++ [last]) ∧
    (∀ c ∈ first, Letter.isBlank c = true) ∧ ∀ c ∈ last, Letter.isBlank c = true
  kept : ∀ s ∈ lines, Source.Kept s

namespace DocumentText

variable (t : DocumentText)

/-- The text of the object. -/
def object : List Char :=
  '\x7b' :: (t.inner ++ ['\x7d'])

/-- The text with its first line. -/
def text : String :=
  String.ofList (Line.header t.name ++ (t.inner ++ ['\x7d']))

/-- Each line closes only brackets that are open, and all are closed in the end. -/
def Balanced : Prop :=
  openBrackets t.lines.flatten = 0 ∧ ∀ k, 0 ≤ openBrackets (t.lines.take k).flatten

lemma tidy_header : Source.Tidy (Line.header t.name) := by
  have hnot : ∀ c, Label.isCode c = false → c ∉ "json \x7b".toList → c ∉ Line.header t.name := by
    intro c hcode hc hmem
    rw [Line.header, List.mem_append, List.mem_append] at hmem
    rcases hmem with hmem | hmem | hmem
    · exact hc ((by decide : "json ".toList ⊆ "json \x7b".toList) hmem)
    · rw [t.isCode c hmem] at hcode
      cases hcode
    · exact hc ((by decide : [' ', '\x7b'] ⊆ "json \x7b".toList) hmem)
  refine ⟨hnot _ (by decide) (by decide), hnot _ (by decide) (by decide),
    hnot _ (by decide) (by decide), ?_, ?_, rfl⟩
  · rintro c hc
    obtain rfl := Option.some.inj hc
    decide
  · have hlast : (Line.header t.name).getLast? = some '\x7b' := by
      have hheader : Line.header t.name = ("json ".toList ++ t.name.toList ++ [' ']) ++ ['\x7b'] := by
        simp [Line.header]
      rw [hheader, List.getLast?_concat]
    rintro c hc
    rw [hlast] at hc
    obtain rfl := Option.some.inj hc
    decide

lemma step_closing {w : List Char} (hw : ∀ c ∈ w, Letter.isBlank c = true) :
    SourceReader.step {} (w ++ ['\x7d']) = ({}, some ⟨['\x7d'], w ++ ['\x7d']⟩) := by
  have hright : Chars.trimRight (w ++ ['\x7d']) = w ++ ['\x7d'] :=
    Chars.trimRight_of_getLast (by
      rw [List.getLast?_concat]
      rintro c hc
      obtain rfl := Option.some.inj hc
      decide)
  have htrim : Chars.trim (w ++ ['\x7d']) = ['\x7d'] := by
    rw [Chars.trim, Chars.trimLeft, List.dropWhile_append_of_pos hw]
    rfl
  rw [SourceReader.step, hright, htrim]
  rfl

/-- The lines of the text as they are seen. -/
lemma exists_lines : ∃ raw, Source.lines t.text =
    ⟨Line.header t.name, Line.header t.name⟩ :: (t.lines.map Source.seen ++ [⟨['\x7d'], raw⟩]) := by
  obtain ⟨first, last, hlines, hfirst, hlast⟩ := t.rawLines
  refine ⟨last ++ ['\x7d'], ?_⟩
  have htidy := t.tidy_header
  have hraw := Source.rawLines_around htidy.newline htidy.carriage (by decide : '\x7d' ≠ '\n')
    (by decide) hlines
  rw [Source.rawLines] at hraw
  rw [Source.lines, text, String.toList_ofList, hraw, SourceReader.run,
    Source.step_append_blank hfirst, htidy.step]
  simp only [Source.run_map_seen t.kept, SourceReader.run, step_closing hlast]

/-- The first line opens the body of the document. -/
lemma step_header {r : Reader} (hr : r.body = none) :
    r.step ⟨Line.header t.name, Line.header t.name⟩ =
      { r with body := some (.document (Line.documentEntity t.name none) 1 []) } := by
  rw [Reader.step, hr]
  change r.readLine (Line.header t.name) = _
  rw [readLine, Line.read?_header t.name_ne t.isCode]
  rfl

lemma opened_map_seen (ls : List (List Char)) :
    opened (ls.map Source.seen) = openBrackets ls.flatten := by
  induction ls with
  | nil => rfl
  | cons s ls ih =>
    rw [opened, List.map_cons, List.flatMap_cons, openBrackets_append, openBrackets_seen,
      List.flatten_cons, openBrackets_append]
    exact congrArg _ ih

/-- A balanced object has balanced lines. -/
lemma balanced_of_inner (h : Reader.Balanced t.inner) : t.Balanced := by
  obtain ⟨first, last, hlines, hfirst, hlast⟩ := t.rawLines
  obtain ⟨first', ps, hps, hinner, hbreaks⟩ := Source.exists_rawLines t.inner
  obtain ⟨rfl, hps⟩ := List.cons.inj (hps.symm.trans hlines)
  have hopened : ∀ qs : List (List Char × List Char), (∀ p ∈ qs, p.1 ∈ Source.breaks) →
      openBrackets (qs.flatMap fun p => p.1 ++ p.2) = openBrackets (qs.map Prod.snd).flatten := by
    intro qs hqs
    induction qs with
    | nil => rfl
    | cons q qs ih =>
      obtain ⟨hq, hqs⟩ := List.forall_mem_cons.1 hqs
      have hbreak : openBrackets q.1 = 0 := openBrackets_of_blank (by
        simp only [Source.breaks, List.mem_cons, List.not_mem_nil, or_false] at hq
        rcases hq with hq | hq | hq <;> rw [hq] <;> decide)
      simp only [List.flatMap_cons, List.map_cons, List.flatten_cons, openBrackets_append, hbreak,
        ih hqs]
      omega
  have hfirst : openBrackets first' = 0 := openBrackets_of_blank hfirst
  have hlast : openBrackets last = 0 := openBrackets_of_blank hlast
  constructor
  · have hwhole := h.whole
    rw [hinner, openBrackets_append, hopened ps hbreaks, hps, List.flatten_append,
      openBrackets_append, List.flatten_singleton, hfirst, hlast] at hwhole
    omega
  · intro k
    -- the first `k` lines, the one of the brace included, are a beginning of the text
    have hstart : t.inner = (first' ++ (ps.take (min k t.lines.length)).flatMap
        fun p => p.1 ++ p.2) ++ (ps.drop (min k t.lines.length)).flatMap fun p => p.1 ++ p.2 := by
      rw [List.append_assoc, ← List.flatMap_append, List.take_append_drop]
      exact hinner
    have htake : (ps.take (min k t.lines.length)).map Prod.snd = t.lines.take k := by
      rw [List.map_take, hps, List.take_append_of_le_length (Nat.min_le_right _ _),
        ← List.take_take, List.take_length]
    rw [hstart] at h
    have hopen := h.of_append
    rwa [openBrackets_append, hfirst, hopened _ fun p hp => hbreaks p (List.mem_of_mem_take hp),
      htake, Int.zero_add] at hopen

/-- The body that the lines make is read as the object. -/
lemma read_body {P : List Char → Prop} {es : List (String × Json)}
    (h : Json.Prints P (.object es) t.object) :
    Document.read ('\x7b' :: Chars.join ['\n'] (filled (t.lines.map Source.seen)) ++ ['\x7d']) =
      .ofJson (.object es) := by
  obtain ⟨first, last, hlines, hfirst, hlast⟩ := t.rawLines
  obtain ⟨first', ps, hps, hinner, hbreaks⟩ := Source.exists_rawLines t.inner
  obtain ⟨rfl, hps⟩ := List.cons.inj (hps.symm.trans hlines)
  have hne : ps ≠ [] := by
    rintro rfl
    exact absurd hps (by simp)
  have hlast' : ∀ p ∈ ps.getLast?, ∀ c ∈ p.2, Letter.isBlank c = true := by
    intro p hp
    have hmap := congrArg List.getLast? hps
    rw [List.getLast?_map, Option.mem_def.1 hp, List.getLast?_concat] at hmap
    rwa [Option.some.inj hmap]
  have hrespaced := respaced_lines [] hbreaks hlast' hfirst (fun h => absurd h hne)
    fun _ h => nomatch h
  have hfilled : filled ((ps.map Prod.snd).map Source.seen) = filled (t.lines.map Source.seen) := by
    rw [hps]
    simp [filled, Source.text_seen_of_blank hlast]
  rw [← hinner, hfilled, ← join_eq_behind] at hrespaced
  have hprints := h.respaced (.char '\x7b' (hrespaced.append (.refl ['\x7d'])))
  have htrim : Chars.trim ('\x7b' :: (Chars.join ['\n'] (filled (t.lines.map Source.seen)) ++
      ['\x7d'])) = '\x7b' :: (Chars.join ['\n'] (filled (t.lines.map Source.seen)) ++ ['\x7d']) := by
    rw [Chars.trim, Chars.trimLeft_of_head, Chars.trimRight_of_getLast hprints.framed.getLast?]
    rintro c hc
    obtain rfl := Option.some.inj hc
    decide
  rw [Document.read, List.cons_append, htrim, Json.read?_of_prints hprints]

/-- The last line closes the body. -/
lemma step_closing_document {r : Reader} {e : Entity} {d : Int} {ls : List (List Char)}
    {raw : List Char} (hr : r.body = some (.document e d ls)) (hd : d ≤ 1) :
    r.step ⟨['\x7d'], raw⟩ = declare { r with body := none }
      { e with document := some (Document.read ('\x7b' :: Chars.join ['\n'] ls ++ ['\x7d'])) } := by
  have hclosed : d + openBrackets ['\x7d'] ≤ 0 := by
    have hone : openBrackets ['\x7d'] = -1 := by decide
    omega
  rw [step, hr]
  change r.documentLine e d ls ['\x7d'] = _
  rw [documentLine, if_pos hclosed]
  rfl

/-- The document that is open behind the first line. -/
lemma body_step_header {r : Reader} (hr : r.body = none) :
    (r.step ⟨Line.header t.name, Line.header t.name⟩).body =
      some (.document (Line.documentEntity t.name none) 1 []) := by
  rw [t.step_header hr]

lemma opened_take (k : Nat) :
    opened ((t.lines.map Source.seen).take k) = openBrackets (t.lines.take k).flatten := by
  rw [← List.map_take, opened_map_seen]

/-- Balanced lines are read as the document. -/
lemma foldl_lines {r : Reader} (hr : r.body = none) (h : t.Balanced) :
    (Source.lines t.text).foldl step r = r.declare (Line.documentEntity t.name
      (some (Document.read
        ('\x7b' :: Chars.join ['\n'] (filled (t.lines.map Source.seen)) ++ ['\x7d'])))) := by
  obtain ⟨raw, hlines⟩ := t.exists_lines
  have hopen : ∀ k, 0 < 1 + opened ((t.lines.map Source.seen).take k) := fun k => by
    rw [opened_take]
    have hstart := h.2 k
    omega
  have hclosed : 1 + opened (t.lines.map Source.seen) ≤ 1 := by
    rw [opened_map_seen, h.1]
    exact Int.le_refl _
  have hbody : { r with body := none } = r := by rw [← hr]
  rw [hlines, List.foldl_cons, List.foldl_append,
    foldl_document _ (t.body_step_header hr) hopen, List.foldl_cons, List.foldl_nil,
    step_closing_document rfl hclosed, t.step_header hr]
  change declare { r with body := none } _ = _
  rw [hbody]
  rfl

lemma readWhole_iff {r : Reader} (hr : r.body = none) :
    r.ReadWhole (Source.lines t.text) ↔ t.Balanced := by
  obtain ⟨raw, hlines⟩ := t.exists_lines
  have hbody := t.body_step_header hr
  have hinside := inDocument_iff (t.lines.map Source.seen) hbody (by decide : (0 : Int) < 1)
  simp only [opened_take] at hinside
  have htake : ∀ k, k ≤ (t.lines.map Source.seen).length →
      ((Source.lines t.text).take (k + 1)).foldl step r = ((t.lines.map Source.seen).take k).foldl
        step (r.step ⟨Line.header t.name, Line.header t.name⟩) := fun k hk => by
    rw [hlines, List.take_succ_cons, List.foldl_cons, List.take_append_of_le_length hk]
  have hlength : (Source.lines t.text).length = (t.lines.map Source.seen).length + 2 := by
    simp [hlines]
  constructor
  · rintro ⟨hopen, hend⟩
    have hstart : ∀ k, 0 ≤ openBrackets (t.lines.take k).flatten := by
      have hpos := hinside.1 fun k => by
        -- more lines than there are make no difference
        rw [← List.take_length (l := t.lines.map Source.seen), List.take_take,
          ← htake _ (Nat.min_le_right _ _)]
        exact hopen _ (Nat.succ_pos _) (by rw [hlength]; omega)
      intro k
      have hk := hpos k
      omega
    refine ⟨?_, hstart⟩
    have hwhole := hstart t.lines.length
    rw [List.take_length] at hwhole
    refine Int.le_antisymm (Int.not_lt.1 fun hlt => ?_) hwhole
    -- a bracket is open behind the last line, so the document goes on
    have hfold := foldl_document (t.lines.map Source.seen) hbody fun k => by
      rw [opened_take]
      have hk := hstart k
      omega
    have hone : openBrackets ['\x7d'] = -1 := by decide
    rw [hlines, List.foldl_cons, List.foldl_append, hfold, List.foldl_cons, List.foldl_nil,
      step_of_open rfl (by rw [opened_map_seen, hone]; omega)] at hend
    cases hend
  · intro h
    refine ⟨fun k hk hlt => ?_, by rw [t.foldl_lines hr h]; exact hr⟩
    obtain ⟨k, rfl⟩ := Nat.exists_eq_add_one.2 hk
    rw [htake k (by omega)]
    exact hinside.2 (fun j => Int.lt_of_lt_of_le (by decide) (Int.add_le_add_left (h.2 j) 1)) k

end DocumentText

/-- The text of an object is read as a document that belongs to no other line if and only if its
lines are balanced, and then the document is the object.  Only a string with brackets that are not
balanced can keep them from being so. -/
theorem Diagram.read_documentText {P : List Char → Prop} {es : List (String × Json)}
    (t : DocumentText) (h : Json.Prints P (.object es) t.object) :
    (∀ r : Reader, r.body = none → (r.ReadWhole (Source.lines t.text) ↔ t.Balanced)) ∧
    (t.Balanced →
      (∀ r : Reader, r.body = none → (Source.lines t.text).foldl Reader.step r =
        r.declare (Line.documentEntity t.name (some (.ofJson (.object es))))) ∧
      ∃ d, Diagram.read t.text = .ok d ∧ d.entities.entries =
        [(t.name, Line.documentEntity t.name (some (.ofJson (.object es))))]) ∧
    ((∀ raw, P raw → Reader.Balanced raw) → t.Balanced) := by
  refine ⟨fun r hr => t.readWhole_iff hr, fun hbalanced => ?_, fun hP =>
    t.balanced_of_inner (h.balanced_inner hP)⟩
  have hfold : ∀ r : Reader, r.body = none → (Source.lines t.text).foldl Reader.step r =
      r.declare (Line.documentEntity t.name (some (.ofJson (.object es)))) := fun r hr => by
    rw [t.foldl_lines hr hbalanced, t.read_body h]
  refine ⟨hfold, (Reader.declare {} (Line.documentEntity t.name (some (.ofJson (.object es))))).finish,
    ?_, rfl⟩
  rw [Diagram.read, hfold {} rfl]
  rfl

/-- A string with brackets that are closed again. -/
theorem Diagram.read_documentText_brackets : ∃ t : DocumentText,
    t.text = "json X \x7b\n\"a\": \"[x]\"\n\x7d" ∧ ∃ d, Diagram.read t.text = .ok d ∧
    d.entities.entries =
      [("X", Line.documentEntity "X" (some (.object [("a", .scalar "[x]")])))] := by
  let t : DocumentText := {
    name := "X"
    inner := "\n\"a\": \"[x]\"\n".toList
    lines := ["\"a\": \"[x]\"".toList]
    name_ne := by decide
    isCode := by decide
    rawLines := ⟨[], [], by decide, by decide, by decide⟩
    kept := List.forall_mem_singleton.2 ⟨by decide, by decide⟩ }
  have hx : Reader.Balanced "[x]".toList :=
    Reader.Balanced.enclose (a := '[') (s := ['x']) (b := ']') (by decide) (by decide)
      (.of_noBracket (by decide))
  have hprint : Json.Prints Reader.Balanced (.object [("a", .string "[x]")]) t.object := by
    have hentry : Json.PrintsEntries Reader.Balanced [("a", .string "[x]")]
        "\n\"a\": \"[x]\"\n".toList :=
      @Json.PrintsEntries.last _ ['a'] _ ['\n'] [] _ _ (by decide)
        (.plain (by decide) (by decide) (by decide) .nil) (.of_noBracket (by decide)) (by decide)
        (@Json.PrintsPadded.mk _ _ [' '] _ ['\n'] (by decide) (.string (.plain (by decide) (by decide)
          (by decide) (.plain (by decide) (by decide) (by decide) (.plain (by decide) (by decide)
          (by decide) .nil))) hx) (by decide))
    exact .object hentry
  obtain ⟨-, hread, hbalanced⟩ := Diagram.read_documentText t hprint
  exact ⟨t, by decide, (hread (hbalanced fun _ h => h)).2⟩

/-- A brace in a string that is not closed again: the document goes on to the end of the text, and
there is no entity. -/
theorem Diagram.read_documentText_brace : ∃ t : DocumentText,
    t.text = "json X \x7b\n\"a\": \"\x7b\"\n\x7d" ∧
    Json.Prints (fun _ => True) (.object [("a", .string "\x7b")]) t.object ∧
    ∃ d, Diagram.read t.text = .ok d ∧ d.entities.entries = [] := by
  let t : DocumentText := {
    name := "X"
    inner := "\n\"a\": \"\x7b\"\n".toList
    lines := ["\"a\": \"\x7b\"".toList]
    name_ne := by decide
    isCode := by decide
    rawLines := ⟨[], [], by decide, by decide, by decide⟩
    kept := List.forall_mem_singleton.2 ⟨by decide, by decide⟩ }
  refine ⟨t, by decide, ?_, ?_⟩
  · have hentry : Json.PrintsEntries (fun _ => True) [("a", .string "\x7b")]
        "\n\"a\": \"\x7b\"\n".toList :=
      @Json.PrintsEntries.last _ ['a'] _ ['\n'] [] _ _ (by decide)
        (.plain (by decide) (by decide) (by decide) .nil) trivial (by decide)
        (@Json.PrintsPadded.mk _ _ [' '] _ ['\n'] (by decide) (.string (.plain (by decide) (by decide)
          (by decide) .nil) trivial) (by decide))
    exact .object hentry
  · obtain ⟨raw, hlines⟩ := t.exists_lines
    have hopen : ∀ k, 0 < 1 + Reader.opened
        ((t.lines.map Source.seen ++ [(⟨['\x7d'], raw⟩ : SourceLine)]).take k) := fun k => by
      match k with
      | 0 => exact (by decide : (0 : Int) < 1)
      | 1 => exact (by decide : (0 : Int) < 2)
      | k + 2 =>
        have hlength : (t.lines.map Source.seen ++ [(⟨['\x7d'], raw⟩ : SourceLine)]).length ≤ k + 2 :=
          Nat.le_add_left 2 k
        rw [List.take_of_length_le hlength]
        exact (by decide : (0 : Int) < 1)
    have hfold := Reader.foldl_document _ (t.body_step_header (r := {}) rfl) hopen
    rw [t.step_header rfl] at hfold
    refine ⟨((Source.lines t.text).foldl Reader.step {}).finish, ?_, ?_⟩
    · rw [Diagram.read, hlines, List.foldl_cons, t.step_header rfl, hfold]
      rfl
    · rw [hlines, List.foldl_cons, t.step_header rfl, hfold]
      rfl

end Class
end UmlDraw
