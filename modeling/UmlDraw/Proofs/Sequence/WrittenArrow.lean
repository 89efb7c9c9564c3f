/-
# Arrows read from either end

An arrow is written as an end mark, a dressing, dashes, a dressing and an end mark, with at most one
modifier beside or among the dashes.  All of its parts are found again when it is read, because the
dashes keep the two ends apart.  So the mirror image of an arrow, with the ends exchanged and each
character of a dressing turned around, stands for the same arrow looked at from its other end.

The main statements are

* `Sequence.WrittenArrow.read_text`: what is read of a written arrow;
* `Sequence.Arrow.read_mirror`: what is read of its mirror image.
-/
import UmlDraw.Proofs.Text.Lines
import UmlDraw.Proofs.Text.Reading
import UmlDraw.Proofs.Text.Search
import UmlDraw.Sequence.Arrow

namespace UmlDraw

namespace Sequence

/-- A character of a dressing, turned around. -/
def turned : Char → Char
  | '<' => '>'
  | '>' => '<'
  | '/' => '\\'
  | '\\' => '/'
  | c => c

/-- An arrow as it is written. -/
structure WrittenArrow where
  /-- The end mark at the start. -/
  startMark : Option Char
  /-- The dressing at the start. -/
  left : List Char
  /-- The number of dashes before the modifier. -/
  before : Nat
  /-- The modifier, without its brackets. -/
  modifier : Option (List Char)
  /-- The number of dashes behind the modifier. -/
  after : Nat
  /-- The dressing at the end. -/
  right : List Char
  /-- The end mark at the end. -/
  endMark : Option Char
  startMark_mem : ∀ c ∈ startMark, c = 'o' ∨ c = 'x'
  left_mem : left ∈ [] :: Arrow.leftDressings
  dashes_pos : 0 < before + after
  modifier_closed : ∀ inner ∈ modifier, ']' ∉ inner
  right_mem : right ∈ [] :: Arrow.rightDressings
  endMark_mem : ∀ c ∈ endMark, c = 'o' ∨ c = 'x'

namespace WrittenArrow

/-- The modifier in its brackets. -/
def bracketed (a : WrittenArrow) : List Char :=
  (a.modifier.map fun inner => '[' :: (inner ++ [']'])).getD []

/-- The characters before the modifier. -/
def front (a : WrittenArrow) : List Char :=
  a.startMark.toList ++ a.left ++ List.replicate a.before '-'

/-- The characters behind the modifier. -/
def back (a : WrittenArrow) : List Char :=
  List.replicate a.after '-' ++ a.right ++ a.endMark.toList

/-- The characters of the arrow. -/
def chars (a : WrittenArrow) : List Char :=
  a.front ++ (a.bracketed ++ a.back)

/-- The text of the arrow. -/
def text (a : WrittenArrow) : String :=
  String.ofList a.chars

/-- The parts of the arrow, without the modifier. -/
def parts (a : WrittenArrow) : Arrow.Parts :=
  ⟨a.startMark, a.left, List.replicate (a.before + a.after) '-', a.right, a.endMark⟩

/-- The items of the modifier. -/
def items (a : WrittenArrow) : List ModifierItem :=
  a.modifier.toList.flatMap fun inner => ModifierItem.read (String.ofList inner)

/-- An arrow is the mirror image of another one: the ends are exchanged, and each character of the
dressings is turned around.  The modifier is kept, and so is the number of dashes. -/
structure Mirrors (b a : WrittenArrow) : Prop where
  startMark_eq : b.startMark = a.endMark
  left_eq : b.left = a.right.map turned
  dashes_eq : b.before + b.after = a.before + a.after
  modifier_eq : b.modifier = a.modifier
  right_eq : b.right = a.left.map turned
  endMark_eq : b.endMark = a.startMark

lemma map_turned_left {l : List Char} (h : l ∈ [] :: Arrow.leftDressings) :
    l.map turned ∈ [] :: Arrow.rightDressings := by
  revert l
  decide

lemma map_turned_right {r : List Char} (h : r ∈ [] :: Arrow.rightDressings) :
    r.map turned ∈ [] :: Arrow.leftDressings := by
  revert r
  decide

/-- The mirror image of an arrow, in which the dashes change places too. -/
def mirror (a : WrittenArrow) : WrittenArrow where
  startMark := a.endMark
  left := a.right.map turned
  before := a.after
  modifier := a.modifier
  after := a.before
  right := a.left.map turned
  endMark := a.startMark
  startMark_mem := a.endMark_mem
  left_mem := map_turned_right a.right_mem
  dashes_pos := Nat.add_comm a.before a.after ▸ a.dashes_pos
  modifier_closed := a.modifier_closed
  right_mem := map_turned_left a.left_mem
  endMark_mem := a.startMark_mem

lemma mirrors_mirror (a : WrittenArrow) : a.mirror.Mirrors a :=
  ⟨rfl, rfl, Nat.add_comm a.after a.before, rfl, rfl, rfl⟩

/-! ### The characters of a written arrow -/

variable (a : WrittenArrow)

/-- The characters of arrows outside of modifiers. -/
def isOutside (c : Char) : Bool :=
  c ∈ ['o', 'x', '-', '<', '>', '/', '\\']

lemma isOutside_mark {m : Option Char} (h : ∀ c ∈ m, c = 'o' ∨ c = 'x') :
    ∀ c ∈ m.toList, isOutside c = true := by
  intro c hc
  rcases h c (Option.mem_toList.1 hc) with rfl | rfl
  · rfl
  · rfl

lemma isOutside_dashes (n : Nat) : ∀ c ∈ List.replicate n '-', isOutside c = true := by
  intro c hc
  rw [List.eq_of_mem_replicate hc]
  rfl

lemma isOutside_left {l : List Char} (h : l ∈ [] :: Arrow.leftDressings) :
    ∀ c ∈ l, isOutside c = true := by
  revert l
  decide

lemma isOutside_right {r : List Char} (h : r ∈ [] :: Arrow.rightDressings) :
    ∀ c ∈ r, isOutside c = true := by
  revert r
  decide

lemma isOutside_front : ∀ c ∈ a.front, isOutside c = true :=
  List.forall_mem_append.2 ⟨List.forall_mem_append.2
    ⟨isOutside_mark a.startMark_mem, isOutside_left a.left_mem⟩, isOutside_dashes _⟩

lemma isOutside_back : ∀ c ∈ a.back, isOutside c = true :=
  List.forall_mem_append.2 ⟨List.forall_mem_append.2
    ⟨isOutside_dashes _, isOutside_right a.right_mem⟩, isOutside_mark a.endMark_mem⟩

/-- An arrow with dashes before its modifier begins outside of the modifier. -/
lemma isOutside_head (h : 0 < a.before) {s : List Char} :
    ∀ c ∈ (a.chars ++ s).head?, isOutside c = true := by
  have hne : a.front ≠ [] := by
    refine List.append_ne_nil_of_right_ne_nil _ fun hnil => ?_
    rw [List.replicate_eq_nil_iff] at hnil
    omega
  obtain ⟨c, front, hfront⟩ := List.exists_cons_of_ne_nil hne
  intro d hd
  rw [chars, hfront] at hd
  obtain rfl : c = d := Option.some.inj hd
  exact a.isOutside_front c (hfront ▸ List.mem_cons_self ..)

lemma isBlank_of_isOutside {c : Char} (h : isOutside c = true) : Letter.isBlank c = false := by
  unfold isOutside at h
  rw [decide_eq_true_iff] at h
  revert c
  decide

lemma not_mem_of_isOutside {x : List Char} (h : ∀ c ∈ x, isOutside c = true) : '[' ∉ x := by
  intro hmem
  exact absurd (h '[' hmem) (by decide)

lemma head_bracketed : ∀ c ∈ a.bracketed.head?, c = '[' := by
  unfold bracketed
  cases a.modifier with
  | none => exact nofun
  | some inner => exact fun c hc => (Option.some.inj hc).symm

lemma getLast_bracketed : ∀ c ∈ a.bracketed.getLast?, c = ']' := by
  unfold bracketed
  cases a.modifier with
  | none => exact nofun
  | some inner =>
    intro c hc
    rw [Option.map_some, Option.getD_some, ← List.cons_append, List.getLast?_concat] at hc
    exact (Option.some.inj hc).symm

/-- There are no blanks around a written arrow. -/
lemma trim_chars : Chars.trim a.chars = a.chars := by
  have hhead : ∀ c ∈ a.chars.head?, Letter.isBlank c = false := by
    intro c hc
    rw [chars, List.head?_append, List.head?_append, Option.mem_def, Option.or_eq_some_iff,
      Option.or_eq_some_iff] at hc
    rcases hc with h | ⟨-, h | ⟨-, h⟩⟩
    · exact isBlank_of_isOutside (a.isOutside_front c (List.mem_of_mem_head? h))
    · rw [a.head_bracketed c h]
      rfl
    · exact isBlank_of_isOutside (a.isOutside_back c (List.mem_of_mem_head? h))
  have hlast : ∀ c ∈ a.chars.getLast?, Letter.isBlank c = false := by
    intro c hc
    rw [chars, List.getLast?_append, List.getLast?_append, Option.mem_def, Option.or_eq_some_iff,
      Option.or_eq_some_iff] at hc
    rcases hc with (h | ⟨-, h⟩) | ⟨-, h⟩
    · exact isBlank_of_isOutside (a.isOutside_back c (List.mem_of_getLast? h))
    · rw [a.getLast_bracketed c h]
      rfl
    · exact isBlank_of_isOutside (a.isOutside_front c (List.mem_of_getLast? h))
  rw [Chars.trim, Chars.trimLeft_of_head hhead, Chars.trimRight_of_getLast hlast]

/-- There is a dash before or behind the modifier. -/
lemma contains_dash : a.text.toList.contains '-' = true := by
  have hdash : '-' ∈ List.replicate a.before '-' ++ List.replicate a.after '-' := by
    rw [List.replicate_append_replicate]
    exact List.mem_replicate.2 ⟨Nat.pos_iff_ne_zero.1 a.dashes_pos, rfl⟩
  rw [text, String.toList_ofList, List.contains_iff_mem]
  unfold chars front back
  simp only [List.mem_append] at hdash ⊢
  rcases hdash with h | h
  · exact .inl (.inr h)
  · exact .inr (.inr (.inl (.inl h)))

/-! ### The modifier -/

/-- A modifier is read up to its closing bracket. -/
lemma takes_modifier {inner : List Char} (h : ']' ∉ inner) (s : List Char) :
    Arrow.modifier.Takes ('[' :: (inner ++ ']' :: s)) (String.ofList inner) s := by
  have hstop : ∀ d ∈ (']' :: s).head?, (d != ']') = false := by
    intro d hd
    obtain rfl : ']' = d := Option.some.inj hd
    rfl
  exact (Scan.takes_char '[' _).bind ((Scan.takes_many (Chars.all_ne_of_not_mem h) hstop).bind
    ((Scan.takes_char ']' s).bind (Scan.takes_pure _ s)))

lemma fails_modifier {s : List Char} (h : ∀ c ∈ s.head?, c ≠ '[') : Arrow.modifier.Fails s :=
  (Scan.fails_char h).bind _

/-- No modifier begins outside of modifiers. -/
lemma failsOn_modifier {x : List Char} (hx : ∀ c ∈ x, isOutside c = true) (s : List Char) :
    Arrow.modifier.FailsOn x s := by
  intro b t hbt ht
  obtain ⟨c, t, rfl⟩ := List.exists_cons_of_ne_nil ht
  refine fails_modifier ?_ _
  intro d hd
  obtain rfl : c = d := Option.some.inj hd
  rintro rfl
  exact not_mem_of_isOutside hx (hbt ▸ List.mem_append_right b (List.mem_cons_self ..))

/-- What is left of an arrow without its modifier, and what the modifier is. -/
lemma modifier_chars : Arrow.modifier.erase a.chars = a.front ++ a.back ∧
    Arrow.modifier.occurrences a.chars = a.modifier.toList.map String.ofList := by
  have hback := failsOn_modifier a.isOutside_back []
  unfold chars bracketed
  cases hmodifier : a.modifier with
  | none =>
    have hall := (failsOn_modifier a.isOutside_front (a.back ++ [])).append hback
    exact ⟨Scan.eraseWithin_of_failsOn hall (Nat.le_succ _),
      Scan.occurrencesWithin_of_failsOn hall (Nat.le_succ _)⟩
  | some inner =>
    have hstart : Arrow.modifier.start ('[' :: (inner ++ [']']) ++ a.back) =
        some (String.ofList inner, a.back) := by
      have htakes := takes_modifier (a.modifier_closed inner hmodifier) a.back
      rw [List.cons_append, List.append_assoc]
      exact htakes _ _ rfl
    have hfront := failsOn_modifier a.isOutside_front ('[' :: (inner ++ [']']) ++ a.back)
    exact ⟨Scan.erase_around hfront (List.cons_ne_nil _ _) hstart hback,
      Scan.occurrences_around hfront (List.cons_ne_nil _ _) hstart hback⟩

/-! ### The parts -/

open Arrow (takeMark takeDressing leftDressings rightDressings)

lemma takeMark_append {m : Option Char} (hm : ∀ c ∈ m, c = 'o' ∨ c = 'x') {s : List Char}
    (hs : ∀ c ∈ s.head?, c ≠ 'o' ∧ c ≠ 'x') : takeMark (m.toList ++ s) = (m, s) := by
  cases m with
  | some c =>
    rcases hm c rfl with rfl | rfl
    · rfl
    · rfl
  | none =>
    rw [Option.toList_none, List.nil_append]
    unfold takeMark
    split
    · exact absurd rfl (hs 'o' rfl).1
    · exact absurd rfl (hs 'x' rfl).2
    · rfl

lemma takeDressing_left {l : List Char} (h : l ∈ [] :: leftDressings) (s : List Char) :
    takeDressing leftDressings (l ++ '-' :: s) = (l, '-' :: s) := by
  simp only [leftDressings, List.mem_cons, List.not_mem_nil, or_false] at h
  rcases h with rfl | rfl | rfl | rfl | rfl | rfl | rfl
  all_goals rfl

lemma takeDressing_right {r : List Char} (h : r ∈ [] :: rightDressings) (s : List Char) :
    takeDressing (rightDressings.map List.reverse) (r.reverse ++ '-' :: s) =
      (r.reverse, '-' :: s) := by
  simp only [rightDressings, List.mem_cons, List.not_mem_nil, or_false] at h
  rcases h with rfl | rfl | rfl | rfl | rfl | rfl | rfl
  all_goals rfl

/-- Neither a dressing nor a dash is an end mark. -/
lemma head_dressing {d : List Char} (h : ∀ c ∈ d, c ≠ 'o' ∧ c ≠ 'x') (s : List Char) :
    ∀ c ∈ (d ++ '-' :: s).head?, c ≠ 'o' ∧ c ≠ 'x' := by
  cases d with
  | nil =>
    intro c hc
    obtain rfl : '-' = c := Option.some.inj hc
    decide
  | cons c d =>
    intro c' hc
    obtain rfl : c = c' := Option.some.inj hc
    exact h c (List.mem_cons_self ..)

lemma not_mark_left {l : List Char} (h : l ∈ [] :: leftDressings) :
    ∀ c ∈ l, c ≠ 'o' ∧ c ≠ 'x' := by
  revert l
  decide

lemma not_mark_right {r : List Char} (h : r ∈ [] :: rightDressings) :
    ∀ c ∈ r.reverse, c ≠ 'o' ∧ c ≠ 'x' := by
  revert r
  decide

/-- The dashes keep the ends of an arrow apart, so its parts are found again. -/
lemma parts_eq : Arrow.parts (a.front ++ a.back) = a.parts := by
  obtain ⟨n, hn⟩ := Nat.exists_eq_succ_of_ne_zero (Nat.pos_iff_ne_zero.1 a.dashes_pos)
  have hchars : a.front ++ a.back = a.startMark.toList ++
      (a.left ++ '-' :: (List.replicate n '-' ++ (a.right ++ a.endMark.toList))) := by
    have hdashes := List.replicate_append_replicate (n := a.before) (m := a.after) (a := '-')
    rw [hn, List.replicate_succ] at hdashes
    rw [← List.cons_append, ← hdashes]
    simp only [front, back, List.append_assoc]
  -- the dashes are the same from both sides
  have hdashes (x : List Char) : List.replicate n '-' ++ '-' :: x = '-' :: (List.replicate n '-' ++ x) :=
    by rw [List.append_cons, ← List.replicate_succ', List.replicate_succ, List.cons_append]
  have hmark : a.endMark.toList.reverse = a.endMark.toList := by
    cases a.endMark <;> rfl
  have hreverse (x : List Char) : (a.left ++ '-' :: (List.replicate n '-' ++ (a.right ++ x))).reverse =
      x.reverse ++ (a.right.reverse ++ '-' :: (List.replicate n '-' ++ a.left.reverse)) := by
    simp [hdashes]
  have hright : (a.right.reverse ++ '-' :: (List.replicate n '-' ++ a.left.reverse)).reverse =
      a.left ++ '-' :: (List.replicate n '-' ++ a.right) := by
    simp [hdashes]
  have hlast : ('-' :: (List.replicate n '-' ++ a.right)).reverse =
      a.right.reverse ++ '-' :: List.replicate n '-' := by
    have h := hdashes []
    simp only [List.append_nil] at h
    simp [h]
  unfold Arrow.parts
  rw [hchars, takeMark_append a.startMark_mem (head_dressing (not_mark_left a.left_mem) _)]
  dsimp only
  rw [hreverse, hmark, takeMark_append a.endMark_mem (head_dressing (not_mark_right a.right_mem) _)]
  dsimp only
  rw [hright, takeDressing_left a.left_mem]
  dsimp only
  rw [hlast, takeDressing_right a.right_mem]
  dsimp only
  rw [parts, hn, List.reverse_reverse]
  simp [List.replicate_succ, ← List.replicate_succ']

/-- What is read of a written arrow. -/
lemma read_text : Arrow.read a.text = Arrow.ofParts a.parts a.items := by
  obtain ⟨herase, hoccurrences⟩ := a.modifier_chars
  rw [Arrow.read, if_pos a.contains_dash, text, String.toList_ofList, trim_chars]
  dsimp only
  rw [herase, hoccurrences, parts_eq, List.flatMap_map]
  rfl

end WrittenArrow

/-! ### Mirror images -/

namespace Arrow

/-- A dressing and its mirror image stand for the same head. -/
lemma headOf_turned {d : List Char} (h : d ∈ [] :: (leftDressings ++ rightDressings)) :
    headOf (d.map turned) = headOf d := by
  revert d
  decide

/-- Seen along the line, a dressing at one end draws the part of a head that its mirror image draws
at the other end. -/
lemma partOf_turned {d : List Char} (h : d ∈ [] :: (leftDressings ++ rightDressings))
    (atEnd : Bool) : partOf (d.map turned) atEnd = partOf d !atEnd := by
  revert d atEnd
  decide

lemma endHeadOf_turned {d : List Char} (h : d ∈ [] :: (leftDressings ++ rightDressings))
    (mark : Option Char) : endHeadOf mark (d.map turned) = endHeadOf mark d := by
  rw [endHeadOf, endHeadOf, headOf_turned h]

/-- An arrow that points somewhere has a cross or a dressing. -/
def Parts.Points (p : Parts) : Prop :=
  p.startMark = some 'x' ∨ p.endMark = some 'x' ∨ p.left ≠ [] ∨ p.right ≠ []

lemma headOf_ne_none {d : List Char} (h : d ≠ []) : headOf d ≠ .none := by
  unfold headOf
  rw [if_neg (by simpa using h)]
  split
  · exact nofun
  · exact nofun

lemma endHeadOf_ne_none {mark : Option Char} {d : List Char} (h : mark = some 'x' ∨ d ≠ []) :
    endHeadOf mark d ≠ .none := by
  unfold endHeadOf
  split
  · exact nofun
  · next hmark =>
    rcases h with rfl | h
    · exact absurd rfl hmark
    · exact headOf_ne_none h

/-- Only an arrow that points nowhere gets a head at its end. -/
lemma endHead_ofParts {p : Parts} (h : p.Points) (items : List ModifierItem) :
    (ofParts p items).endHead = endHeadOf p.endMark p.right := by
  have hbare : (p.left.isEmpty && p.right.isEmpty && endHeadOf p.startMark p.left == .none &&
      endHeadOf p.endMark p.right == .none) = false := by
    simp only [Bool.and_eq_false_iff, beq_eq_false_iff_ne, List.isEmpty_eq_false_iff]
    rcases h with h | h | h | h
    · exact .inl (.inr (endHeadOf_ne_none (.inl h)))
    · exact .inr (endHeadOf_ne_none (.inl h))
    · exact .inl (.inl (.inl h))
    · exact .inl (.inl (.inr h))
  unfold ofParts
  dsimp only
  rw [hbare, if_neg Bool.false_ne_true]

lemma eq_reversed {a b : Arrow} (hstart : b.startHead = a.endHead) (hend : b.endHead = a.startHead)
    (hbody : b.body = a.body) (hpart : b.part = a.part) (hstartCircle : b.startCircle = a.endCircle)
    (hendCircle : b.endCircle = a.startCircle) (hcolor : b.color = a.color)
    (hlength : b.length = a.length) : b = a.reversed := by
  cases a
  cases b
  simp_all [reversed]

/-- The part of a head is that of the dressing at the end, if there is one, so it changes only if
there are dressings at both ends that are no mirror images of each other. -/
lemma part_turned {l r : List Char} (hl : l ∈ [] :: (leftDressings ++ rightDressings))
    (hr : r ∈ [] :: (leftDressings ++ rightDressings)) (hfit : l ≠ [] → r ≠ [] → r = l.map turned) :
    (if !(l.map turned).isEmpty then partOf (l.map turned) true
      else if !(r.map turned).isEmpty then partOf (r.map turned) false else .full) =
    if !r.isEmpty then partOf r true else if !l.isEmpty then partOf l false else .full := by
  rw [partOf_turned hl, partOf_turned hr]
  cases l with
  | nil => cases r <;> rfl
  | cons c l =>
    cases r with
    | nil => rfl
    | cons d r =>
      have hpart := partOf_turned hl true
      rw [← hfit (List.cons_ne_nil c l) (List.cons_ne_nil d r)] at hpart
      exact hpart.symm

lemma mem_dressings_left (a : WrittenArrow) :
    a.left ∈ [] :: (leftDressings ++ rightDressings) :=
  List.mem_append_left rightDressings a.left_mem

lemma mem_dressings_right (a : WrittenArrow) :
    a.right ∈ [] :: (leftDressings ++ rightDressings) := by
  rcases List.mem_cons.1 a.right_mem with h | h
  · exact List.mem_cons.2 (.inl h)
  · exact List.mem_cons_of_mem _ (List.mem_append_right _ h)

/-- The mirror image of an arrow that points somewhere points somewhere. -/
lemma points_of_mirrors {a b : WrittenArrow} (hmirror : b.Mirrors a) (h : a.parts.Points) :
    b.parts.Points := by
  have hleft : a.left ≠ [] → b.right ≠ [] := by simp [hmirror.right_eq]
  have hright : a.right ≠ [] → b.left ≠ [] := by simp [hmirror.left_eq]
  rcases h with h | h | h | h
  · exact .inr (.inl (hmirror.endMark_eq.trans h))
  · exact .inl (hmirror.startMark_eq.trans h)
  · exact .inr (.inr (.inr (hleft h)))
  · exact .inr (.inr (.inl (hright h)))

/-- An arrow with a cross or a dressing can be read from either end: its mirror image stands for the
reversed arrow, if dressings at both ends are mirror images of each other. -/
theorem read_mirror {a b : WrittenArrow} (hmirror : b.Mirrors a)
    (hpoints : a.startMark = some 'x' ∨ a.endMark = some 'x' ∨ a.left ≠ [] ∨ a.right ≠ [])
    (hfit : a.left ≠ [] → a.right ≠ [] → a.right = a.left.map turned) :
    read b.text = (read a.text).reversed := by
  have hleft := mem_dressings_left a
  have hright := mem_dressings_right a
  have hitems : b.items = a.items := by
    rw [WrittenArrow.items, WrittenArrow.items, hmirror.modifier_eq]
  have hlength : b.parts.body.count '-' = a.parts.body.count '-' := by
    rw [WrittenArrow.parts, WrittenArrow.parts, hmirror.dashes_eq]
  rw [WrittenArrow.read_text, WrittenArrow.read_text, hitems]
  refine eq_reversed ?_ ?_ ?_ ?_ ?_ ?_ rfl hlength
  · -- the head at the start comes from the end of the arrow
    rw [endHead_ofParts (p := a.parts) hpoints]
    show endHeadOf b.startMark b.left = endHeadOf a.endMark a.right
    rw [hmirror.startMark_eq, hmirror.left_eq, endHeadOf_turned hright]
  · rw [endHead_ofParts (points_of_mirrors hmirror hpoints)]
    show endHeadOf b.endMark b.right = endHeadOf a.startMark a.left
    rw [hmirror.endMark_eq, hmirror.right_eq, endHeadOf_turned hleft]
  · unfold ofParts
    dsimp only
    rw [hlength]
  · show (if !b.right.isEmpty then partOf b.right true
        else if !b.left.isEmpty then partOf b.left false else .full) = _
    rw [hmirror.right_eq, hmirror.left_eq]
    exact part_turned hleft hright hfit
  · show (b.startMark == some 'o') = (a.endMark == some 'o')
    rw [hmirror.startMark_eq]
  · show (b.endMark == some 'o') = (a.startMark == some 'o')
    rw [hmirror.endMark_eq]

/-- A cross behind a half head, with a modifier that says more than a color. -/
theorem read_mirror_cross :
    ∃ a : WrittenArrow, a.text = "o-[#red,bold]--//x" ∧ a.mirror.text = "x\\\\--[#red,bold]-o" ∧
      (a.startMark = some 'x' ∨ a.endMark = some 'x' ∨ a.left ≠ [] ∨ a.right ≠ []) ∧
      (a.left ≠ [] → a.right ≠ [] → a.right = a.left.map turned) ∧
      read "x\\\\--[#red,bold]-o" = (read "o-[#red,bold]--//x").reversed := by
  let a : WrittenArrow :=
    { startMark := some 'o', left := [], before := 1, modifier := some "#red,bold".toList
      after := 2, right := ['/', '/'], endMark := some 'x'
      startMark_mem := fun _ h => .inl (Option.some.inj h).symm, left_mem := by decide
      dashes_pos := by decide, modifier_closed := by decide, right_mem := by decide
      endMark_mem := fun _ h => .inr (Option.some.inj h).symm }
  have hpoints : a.startMark = some 'x' ∨ a.endMark = some 'x' ∨ a.left ≠ [] ∨ a.right ≠ [] :=
    .inr (.inl rfl)
  have hfit : a.left ≠ [] → a.right ≠ [] → a.right = a.left.map turned := fun h => absurd rfl h
  have htext : a.text = "o-[#red,bold]--//x" := by decide
  have hmirror : a.mirror.text = "x\\\\--[#red,bold]-o" := by decide
  refine ⟨a, htext, hmirror, hpoints, hfit, ?_⟩
  rw [← htext, ← hmirror]
  exact read_mirror a.mirrors_mirror hpoints hfit

end Arrow

end Sequence
end UmlDraw
