/-
# Members as they are written

A member is taken apart at parentheses and colons and put together again from its parts.  Blanks may
come and go at the seams, and classifiers in braces are not drawn.  Apart from that a row shows the
characters of its line, one by one, with one exception: a line that is taken for a method but does
not have the form of one is drawn with a pair of parentheses behind it, even if it has its own.

The main statements are

* `Member.exists_unclassified` and `Member.letters_erase`: what is left without classifiers;
* `Member.isSome_method_iff`: the texts that have the form of a method;
* `Member.letters_label`: which characters a row shows.
-/
import UmlDraw.Class.Member
import UmlDraw.Proofs.Text.Keyword

namespace UmlDraw

namespace Chars

variable {s t : List Char}

/-- The characters of a text that are no blanks. -/
def letters (s : List Char) : List Char :=
  s.filter fun c => !Letter.isBlank c

@[simp]
lemma letters_nil : letters [] = [] :=
  rfl

@[simp]
lemma letters_append (s t : List Char) : letters (s ++ t) = letters s ++ letters t :=
  List.filter_append s t

lemma letters_cons_of_blank {c : Char} (h : Letter.isBlank c = true) (s : List Char) :
    letters (c :: s) = letters s :=
  List.filter_cons_of_neg (by simp [h])

lemma letters_cons {c : Char} (h : Letter.isBlank c = false) (s : List Char) :
    letters (c :: s) = c :: letters s :=
  List.filter_cons_of_pos (by simp [h])

lemma letters_of_blank (h : ∀ c ∈ s, Letter.isBlank c = true) : letters s = [] :=
  List.filter_eq_nil_iff.2 fun c hc => by simp [h c hc]

@[simp]
lemma letters_trimLeft (s : List Char) : letters (trimLeft s) = letters s := by
  obtain ⟨w, hs, hw⟩ := exists_trimLeft s
  calc letters (trimLeft s) = letters w ++ letters (trimLeft s) := by
        rw [letters_of_blank hw, List.nil_append]
    _ = letters s := by rw [← letters_append, ← hs]

@[simp]
lemma letters_trimRight (s : List Char) : letters (trimRight s) = letters s := by
  obtain ⟨w, hs, hw⟩ := exists_trimRight s
  calc letters (trimRight s) = letters (trimRight s) ++ letters w := by
        rw [letters_of_blank hw, List.append_nil]
    _ = letters s := by rw [← letters_append, ← hs]

@[simp]
lemma letters_trim (s : List Char) : letters (trim s) = letters s := by
  rw [trim, letters_trimRight, letters_trimLeft]

lemma isBlank_getLast?_trimRight (s : List Char) :
    ∀ c ∈ (trimRight s).getLast?, Letter.isBlank c = false := by
  intro c hc
  rw [trimRight, dropEndWhile, List.getLast?_reverse] at hc
  have hhead := List.head?_dropWhile_not (p := Letter.isBlank) s.reverse
  rw [hc] at hhead
  simpa using hhead

@[simp]
lemma letters_toList_trim (s : String) : letters (Text.trim s).toList = letters s.toList := by
  rw [Text.trim, String.toList_ofList, letters_trim]

@[simp]
lemma letters_open (s : List Char) : letters ('(' :: s) = '(' :: letters s :=
  letters_cons (by decide) s

@[simp]
lemma letters_close (s : List Char) : letters (')' :: s) = ')' :: letters s :=
  letters_cons (by decide) s

@[simp]
lemma letters_colon (s : List Char) : letters (':' :: s) = ':' :: letters s :=
  letters_cons (by decide) s

lemma letters_ne_nil (hne : s ≠ []) (hlast : ∀ c ∈ s.getLast?, Letter.isBlank c = false) :
    letters s ≠ [] := by
  intro h
  have hc : Letter.isBlank (s.getLast hne) = false :=
    hlast _ (List.getLast?_eq_some_getLast hne)
  have hnot := List.filter_eq_nil_iff.1 h _ (List.getLast_mem hne)
  rw [hc] at hnot
  exact hnot rfl

end Chars

namespace Class
namespace Member

open Chars Scan

variable {s t : List Char}

/-! ### Classifiers -/

/-- The words of classifiers. -/
def classifierWords : List String :=
  ["static", "classifier", "abstract", "field", "method"]

/-- A text starts with a classifier; its word may be written in any case. -/
def StartsClassified (s : List Char) : Prop :=
  ∃ (w : WrittenWord classifierWords) (t : List Char), s = '\x7b' :: (w.chars ++ '\x7d' :: t)

/-- The second text is the first one without its classifiers, and none of them tells a field from a
method. -/
inductive Unclassified : List Char → List Char → Prop
  | nil : Unclassified [] []
  | classifier {s t : List Char} (w : WrittenWord ["static", "classifier", "abstract"])
      (h : Unclassified s t) : Unclassified ('\x7b' :: (w.chars ++ '\x7d' :: s)) t
  | char {c : Char} {s t : List Char} (hc : ¬ StartsClassified (c :: s)) (h : Unclassified s t) :
      Unclassified (c :: s) (c :: t)

/-- A text without braces has no classifiers. -/
lemma unclassified_of_not_mem (h : '\x7b' ∉ s) : Unclassified s s := by
  induction s with
  | nil => exact .nil
  | cons c s ih =>
    rw [List.mem_cons, not_or] at h
    refine .char ?_ (ih h.2)
    rintro ⟨w, t, heq⟩
    exact h.1 (List.cons.inj heq).1.symm

/-- A text without classifiers that tell fields from methods can be rid of the other ones. -/
lemma exists_unclassified (s : List Char)
    (h : ∀ (w : WrittenWord ["field", "method"]) (x y : List Char),
      s ≠ x ++ '\x7b' :: (w.chars ++ '\x7d' :: y)) : ∃ t, Unclassified s t := by
  induction hn : s.length using Nat.strongRecOn generalizing s with
  | ind n ih =>
    subst hn
    -- what is behind a beginning of the text has no such classifier either
    have hbehind : ∀ x s', s = x ++ s' → x ≠ [] → ∃ t, Unclassified s' t := by
      rintro x s' rfl hx
      have hlength := List.length_pos_iff.2 hx
      refine ih s'.length (by rw [List.length_append]; omega) s' (fun w x' y heq => ?_) rfl
      exact h w (x ++ x') y (by rw [heq, List.append_assoc])
    cases s with
    | nil => exact ⟨[], .nil⟩
    | cons c s =>
      by_cases hstart : StartsClassified (c :: s)
      · obtain ⟨⟨word, hword⟩, s', hs⟩ := hstart
        obtain ⟨v, hv, hspells⟩ := hword
        by_cases hkind : v ∈ ["field", "method"]
        · exact absurd hs (h ⟨word, v, hkind, hspells⟩ [] s')
        · have hv : v ∈ ["static", "classifier", "abstract"] := by
            simp only [classifierWords, List.mem_cons, List.not_mem_nil, or_false] at hv hkind ⊢
            tauto
          obtain ⟨t, ht⟩ := hbehind ('\x7b' :: (word ++ ['\x7d'])) s' (by rw [hs]; simp)
            (List.cons_ne_nil _ _)
          exact ⟨t, hs ▸ .classifier ⟨word, v, hv, hspells⟩ ht⟩
      · obtain ⟨t, ht⟩ := hbehind [c] s rfl (List.cons_ne_nil _ _)
        exact ⟨c :: t, .char hstart ht⟩

/-- A classifier is read with the blanks behind it. -/
lemma start_classifier (w : WrittenWord classifierWords) (s : List Char) :
    classifier.start ('\x7b' :: (w.chars ++ '\x7d' :: s)) = some (w.word, trimLeft s) := by
  have hdiffer : ∀ v ∈ classifierWords, ∀ v' ∈ classifierWords,
      v = v' ∨ differ v.toList v'.toList = true := by decide
  have htakes : classifier.Takes ('\x7b' :: (w.chars ++ '\x7d' :: s)) w.word (trimLeft s) :=
    (takes_char _ _).bind ((w.forced_oneOf hdiffer _).takes.bind
      ((takes_char _ _).bind ((takes_skip_dropWhile _ s).bind (takes_pure _ _))))
  exact htakes _ _ rfl

lemma startsClassified_of_start {r : String × List Char} (h : classifier.start s = some r) :
    StartsClassified s := by
  obtain ⟨_, _, u, rfl, rfl, hword⟩ := (Cuts.char '\x7b').of_bind h
  obtain ⟨x, _, v, rfl, hx, hclose⟩ := (cuts_oneOf classifierWords).of_bind hword
  obtain ⟨_, _, y, rfl, rfl, -⟩ := (Cuts.char '\x7d').of_bind hclose
  exact ⟨⟨x, hx⟩, y, rfl⟩

/-- The letters that are left when classifiers are erased. -/
lemma letters_eraseWithin (h : Unclassified s t) {x s' : List Char} (hs : s = x ++ s')
    (hx : ∀ c ∈ x, Letter.isBlank c = true) {n : Nat} (hn : s'.length < n) :
    letters (classifier.eraseWithin n s') = letters t := by
  induction h generalizing x s' n with
  | nil =>
    obtain ⟨rfl, rfl⟩ := List.nil_eq_append_iff.1 hs
    cases n <;> rfl
  | @classifier s t w h ih =>
    cases x with
    | cons d x =>
      -- a classifier does not start with a blank
      obtain ⟨rfl, -⟩ := List.cons.inj hs
      exact absurd (hx _ (List.mem_cons_self ..)) (by decide)
    | nil =>
      obtain rfl : _ = s' := hs
      obtain ⟨m, rfl⟩ := Nat.exists_eq_add_of_lt hn
      have hw : ∃ word ∈ classifierWords, Spells word w.chars :=
        w.spells.imp fun word hword => ⟨List.mem_append_left _ hword.1, hword.2⟩
      rw [eraseWithin, start_classifier ⟨w.chars, hw⟩]
      obtain ⟨b, hb, hblank⟩ := exists_trimLeft s
      refine ih hb hblank ?_
      have hlength := congrArg List.length hb
      simp only [List.length_append, List.length_cons] at hlength ⊢
      omega
  | @char c s t hc h ih =>
    cases x with
    | cons d x =>
      obtain ⟨rfl, htail⟩ := List.cons.inj hs
      obtain ⟨hd, hx⟩ := List.forall_mem_cons.1 hx
      rw [letters_cons_of_blank hd]
      exact ih htail hx hn
    | nil =>
      obtain rfl : c :: s = s' := hs
      obtain ⟨m, rfl⟩ := Nat.exists_eq_add_of_lt hn
      have hstart : classifier.start (c :: s) = none :=
        Option.eq_none_iff_forall_ne_some.2 fun r hr => hc (startsClassified_of_start hr)
      have hrest : letters (classifier.eraseWithin ((c :: s).length + m) s) = letters t :=
        ih (List.nil_append s).symm (List.forall_mem_nil _) (by rw [List.length_cons]; omega)
      rw [eraseWithin, hstart]
      show letters ([c] ++ _) = letters ([c] ++ t)
      rw [letters_append, letters_append, hrest]

/-- Without classifiers a text has the letters that it is left with. -/
theorem letters_erase (h : Unclassified s t) : letters (classifier.erase s) = letters t :=
  letters_eraseWithin h (List.nil_append s).symm (List.forall_mem_nil _) (Nat.lt_succ_self _)

/-! ### Methods and fields -/

/-- A text that has the form of a method, and its parts: a name, parameters in parentheses, and
perhaps a result behind a colon. -/
inductive MethodForm : List Char → String × String × Option String → Prop
  | plain {name parameters gap : List Char} (hname : name ≠ [] ∧ '\n' ∉ name)
      (hparameters : ')' ∉ parameters) (hgap : ∀ c ∈ gap, Letter.isBlank c = true) :
      MethodForm (name ++ '(' :: (parameters ++ ')' :: gap))
        (Text.trim (String.ofList name), Text.trim (String.ofList parameters), none)
  | typed {name parameters gap gap' result : List Char} (hname : name ≠ [] ∧ '\n' ∉ name)
      (hparameters : ')' ∉ parameters) (hgap : ∀ c ∈ gap, Letter.isBlank c = true)
      (hgap' : ∀ c ∈ gap', Letter.isBlank c = true) (hresult : result ≠ [] ∧ '\n' ∉ result) :
      MethodForm (name ++ '(' :: (parameters ++ ')' :: (gap ++ ':' :: (gap' ++ result))))
        (Text.trim (String.ofList name), Text.trim (String.ofList parameters),
          some (Text.trim (String.ofList result)))

/-- A text has the form of a method. -/
def IsMethodText (s : List Char) : Prop :=
  ∃ parts, MethodForm s parts

lemma forall_bne_iff {d : Char} : (∀ c ∈ s, (c != d) = true) ↔ d ∉ s := by
  simp only [bne_iff_ne]
  exact ⟨fun h hd => h d hd rfl, fun h c hc heq => h (heq ▸ hc)⟩

lemma cuts_method : method.Cuts fun x m _ => MethodForm x m := by
  have hresult : (do
      let _ ← Scan.char ':'
      Scan.blanks
      Scan.many1 Scan.inLine : Scan String).Cuts fun x w _ => ∃ gap' result : List Char,
        x = ':' :: (gap' ++ result) ∧ w = String.ofList result ∧
          (∀ c ∈ gap', Letter.isBlank c = true) ∧ result ≠ [] ∧ '\n' ∉ result := by
    intro _ s next b hb
    obtain ⟨_, _, t, rfl, rfl, hb₁⟩ := (Cuts.char ':').of_bind hb
    obtain ⟨gap', _, u, rfl, hgap', hb₂⟩ := (Cuts.skip Letter.isBlank).of_bind hb₁
    obtain ⟨result, _, v, rfl, ⟨rfl, hne, hline⟩, hb₃⟩ := Cuts.many1 _ _ _ _ hb₂
    exact ⟨':' :: (gap' ++ result), _, v, by simp, ⟨gap', result, rfl, rfl, hgap', hne,
      forall_bne_iff.1 hline⟩, hb₃⟩
  intro _ s next b hb
  obtain ⟨name, _, s₁, rfl, ⟨rfl, hne, hline⟩, hb₁⟩ := (Cuts.few1 inLine).of_bind hb
  obtain ⟨_, _, s₂, rfl, rfl, hb₂⟩ := (Cuts.char '(').of_bind hb₁
  obtain ⟨parameters, _, s₃, rfl, ⟨rfl, hparameters⟩, hb₃⟩ := (Cuts.many (· != ')')).of_bind hb₂
  obtain ⟨_, _, s₄, rfl, rfl, hb₄⟩ := (Cuts.char ')').of_bind hb₃
  obtain ⟨gap, _, s₅, rfl, hgap, hb₅⟩ := (Cuts.skip Letter.isBlank).of_bind hb₄
  obtain ⟨x, r, t, rfl, hx, hb₆⟩ := hresult.optional.of_bind hb₅
  have hname : name ≠ [] ∧ '\n' ∉ name := ⟨hne, forall_bne_iff.1 hline⟩
  have hparameters := forall_bne_iff.1 hparameters
  rcases hx with ⟨rfl, rfl⟩ | ⟨_, rfl, gap', result, rfl, rfl, hgap', hresult⟩
  · exact ⟨_, _, t, by simp, .plain hname hparameters hgap, hb₆⟩
  · exact ⟨_, _, t, by simp, .typed hname hparameters hgap hgap' hresult, hb₆⟩

lemma MethodForm.offers {m : String × String × Option String} (h : MethodForm s m) :
    method.Offers s m [] := by
  cases h with
  | plain hname hparameters hgap =>
    have hskip := offers_skip hgap []
    rw [List.append_nil] at hskip
    exact (offers_few1 hname.1 (forall_bne_iff.2 hname.2) _).bind
      ((takes_char _ _).offers.bind ((offers_many (forall_bne_iff.2 hparameters) _).bind
        ((takes_char _ _).offers.bind (hskip.bind
          ((Offers.optional_none _ _).bind (takes_pure _ _).offers)))))
  | @typed name parameters gap gap' result hname hparameters hgap hgap' hresult =>
    have hmany := offers_many1 hresult.1 (forall_bne_iff.2 hresult.2) []
    rw [List.append_nil] at hmany
    exact (offers_few1 hname.1 (forall_bne_iff.2 hname.2) _).bind
      ((takes_char _ _).offers.bind ((offers_many (forall_bne_iff.2 hparameters) _).bind
        ((takes_char _ _).offers.bind ((offers_skip hgap _).bind
          ((Offers.optional_some ((takes_char _ _).offers.bind ((offers_skip hgap' _).bind
            hmany))).bind (takes_pure _ _).offers)))))

/-- The texts that are read as a method are those of its form. -/
theorem isSome_method_iff : (method.whole s).isSome = true ↔ IsMethodText s := by
  constructor
  · intro h
    obtain ⟨m, hm⟩ := Option.isSome_iff_exists.1 h
    exact ⟨m, cuts_method.of_whole hm⟩
  · rintro ⟨m, hm⟩
    exact hm.offers.whole

/-- A field with a type, and its parts. -/
lemma cuts_field : field.Cuts fun x f _ => ∃ name gap gap' type : List Char,
    x = name ++ (gap ++ ':' :: (gap' ++ type)) ∧ type ≠ [] ∧
      (∀ c ∈ gap, Letter.isBlank c = true) ∧ (∀ c ∈ gap', Letter.isBlank c = true) ∧
      f = (Text.trim (String.ofList name), Text.trim (String.ofList type)) := by
  intro _ s next b hb
  obtain ⟨name, _, s₁, rfl, ⟨rfl, -⟩, hb₁⟩ := (Cuts.few1 inLine).of_bind hb
  obtain ⟨gap, _, s₂, rfl, hgap, hb₂⟩ := (Cuts.skip Letter.isBlank).of_bind hb₁
  obtain ⟨_, _, s₃, rfl, rfl, hb₃⟩ := (Cuts.char ':').of_bind hb₂
  obtain ⟨gap', _, s₄, rfl, hgap', hb₄⟩ := (Cuts.skip Letter.isBlank).of_bind hb₃
  obtain ⟨type, _, s₅, rfl, ⟨rfl, htype, -⟩, hb₅⟩ := (Cuts.many1 inLine).of_bind hb₄
  exact ⟨_, _, s₅, by simp, ⟨name, gap, gap', type, rfl, htype, hgap, hgap', rfl⟩, hb₅⟩

/-- What a text is taken apart into, once it is known whether it is a method. -/
def parts (isMethod : Bool) (s : List Char) : String × Option String × Option String :=
  if isMethod then
    match method.whole s with
    | some (name, parameters, result) => (name, some parameters, result)
    | none => (String.ofList s, some "", none)
  else
    match field.whole s with
    | some (name, type) => (name, none, some type)
    | none => (Text.trim (String.ofList s), none, none)

/-- The letters that are drawn for the parts of a member. -/
def shown : String × Option String × Option String → List Char
  | (name, parameters, result) => letters name.toList ++
      parameters.elim [] (fun p => '(' :: (letters p.toList ++ [')'])) ++
      (result.filter fun r => !r.isEmpty).elim [] fun r => ':' :: letters r.toList

/-- A type at the end of a text without blanks there is drawn. -/
lemma filter_trim (hne : t ≠ []) (hlast : ∀ c ∈ (s ++ t).getLast?, Letter.isBlank c = false) :
    (some (Text.trim (String.ofList t))).filter (fun r => !r.isEmpty) =
      some (Text.trim (String.ofList t)) := by
  have hletters : letters t ≠ [] := by
    refine letters_ne_nil hne fun c hc => hlast c ?_
    rw [List.getLast?_append, Option.mem_def.1 hc, Option.some_or]
    exact rfl
  have htype : Text.trim (String.ofList t) ≠ "" := by
    intro hempty
    have htrim := letters_toList_trim (String.ofList t)
    rw [hempty, String.toList_ofList, String.toList_ofList] at htrim
    exact hletters htrim.symm
  rw [Option.filter_some, if_pos (by simpa using htype)]

/-- A method is drawn with all its letters. -/
lemma MethodForm.shown_eq {m : String × String × Option String} (h : MethodForm s m)
    (hlast : ∀ c ∈ s.getLast?, Letter.isBlank c = false) :
    shown (m.1, some m.2.1, m.2.2) = letters s := by
  cases h with
  | plain hname hparameters hgap => simp [shown, letters_of_blank hgap]
  | @typed name parameters gap gap' result hname hparameters hgap hgap' hresult =>
    have hsplit : name ++ '(' :: (parameters ++ ')' :: (gap ++ ':' :: (gap' ++ result))) =
        (name ++ '(' :: (parameters ++ ')' :: (gap ++ ':' :: gap'))) ++ result := by simp
    rw [hsplit] at hlast
    simp [shown, filter_trim hresult.1 hlast, letters_of_blank hgap, letters_of_blank hgap']

/-- A field is drawn with all its letters. -/
lemma shown_field {f : String × String} (h : field.whole s = some f)
    (hlast : ∀ c ∈ s.getLast?, Letter.isBlank c = false) :
    shown (f.1, none, some f.2) = letters s := by
  obtain ⟨name, gap, gap', type, rfl, htype, hgap, hgap', rfl⟩ := cuts_field.of_whole h
  have hsplit : name ++ (gap ++ ':' :: (gap' ++ type)) =
      (name ++ (gap ++ ':' :: gap')) ++ type := by simp
  rw [hsplit] at hlast
  simp [shown, filter_trim htype hlast, letters_of_blank hgap, letters_of_blank hgap']

/-- The parts of a text are drawn with its letters.  A method without the form of one gets a pair of
parentheses. -/
lemma shown_parts (isMethod : Bool) (hlast : ∀ c ∈ s.getLast?, Letter.isBlank c = false) :
    ((isMethod = true → IsMethodText s) → shown (parts isMethod s) = letters s) ∧
      (¬ (isMethod = true → IsMethodText s) →
        shown (parts isMethod s) = letters s ++ ['(', ')']) := by
  cases isMethod with
  | false =>
    refine ⟨fun _ => ?_, fun h => absurd nofun h⟩
    cases hfield : field.whole s with
    | none => simp [parts, hfield, shown]
    | some f => simpa [parts, hfield] using shown_field hfield hlast
  | true =>
    cases hmethod : method.whole s with
    | none =>
      have hform : ¬ IsMethodText s := by rw [← isSome_method_iff, hmethod]; nofun
      exact ⟨fun h => absurd (h rfl) hform, fun _ => by simp [parts, hmethod, shown]⟩
    | some m =>
      have hform : MethodForm s m := cuts_method.of_whole hmethod
      exact ⟨fun _ => by simpa [parts, hmethod] using hform.shown_eq hlast,
        fun h => absurd (fun _ => ⟨m, hform⟩) h⟩

lemma sign_of_ofSign? {c : Char} {v : Visibility} (h : Visibility.ofSign? c = some v) :
    v.sign = c := by
  rw [Visibility.ofSign?] at h
  simpa using List.find?_some h

/-- A sign and the text behind it have the letters of both. -/
lemma letters_takeVisibility (s : List Char) :
    ((takeVisibility s).1.elim [] fun v => [v.sign]) ++ letters (takeVisibility s).2 =
      letters s := by
  cases s with
  | nil => rfl
  | cons c s =>
    rw [takeVisibility]
    split
    · rfl
    · split
      · next v hv =>
        obtain rfl := sign_of_ofSign? hv
        have hsign : Letter.isBlank v.sign = false := by cases v <;> decide
        simp [letters_cons hsign]
      · rfl

lemma isBlank_takeVisibility (hlast : ∀ c ∈ s.getLast?, Letter.isBlank c = false) :
    ∀ c ∈ (takeVisibility s).2.getLast?, Letter.isBlank c = false := by
  cases s with
  | nil => exact hlast
  | cons c s =>
    rw [takeVisibility]
    split
    · exact hlast
    · split
      · intro d hd
        obtain ⟨w, hw, -⟩ := exists_trimLeft s
        refine hlast d ?_
        rw [hw, ← List.cons_append, List.getLast?_append, Option.mem_def.1 hd]
        exact rfl
      · exact hlast

/-- A line of a body without its classifiers and its sign. -/
def rest (line : String) : List Char :=
  (takeVisibility (trim (classifier.erase line.toList))).2

lemma read_eq (line : String) :
    (read line).visibility = (takeVisibility (trim (classifier.erase line.toList))).1 ∧
      ((read line).name, (read line).parameters, (read line).result) =
        parts (read line).isMethod (rest line) := by
  refine ⟨rfl, ?_⟩
  have hparts (b : Bool) : (parts b (rest line)).2.1.isSome = b := by
    unfold parts
    split
    · next hb =>
      rw [hb]
      split <;> rfl
    · next hb =>
      rw [Bool.not_eq_true] at hb
      rw [hb]
      split <;> rfl
  exact congrArg (parts · (rest line)) (hparts _).symm

lemma letters_label_eq (m : Member) :
    letters m.label.toList = (m.visibility.elim [] fun v => [v.sign]) ++
      shown (m.name, m.parameters, m.result) := by
  obtain ⟨_, name, result, visibility, _, _, parameters⟩ := m
  simp only [label, shown, String.toList_append, letters_append, ← List.append_assoc]
  refine congrArg₂ (· ++ ·) (congrArg₂ (· ++ ·) (congrArg (· ++ _) ?sign) ?parameters) ?result
  case sign =>
    cases visibility with
    | none => rfl
    | some v => cases v <;> rfl
  case parameters => cases parameters <;> simp
  case result =>
    split
    · next r hr =>
      rw [hr, String.toList_append, letters_append]
      rfl
    · next hr => rw [hr]; rfl

/-- A row shows the letters of its line.  Behind a line that is taken for a method without having
the form of one it shows a pair of parentheses besides. -/
theorem letters_label {line : String} (h : Unclassified line.toList t) :
    (((read line).isMethod = true → IsMethodText (rest line)) →
        letters (read line).label.toList = letters t) ∧
      (¬ ((read line).isMethod = true → IsMethodText (rest line)) →
        letters (read line).label.toList = letters t ++ ['(', ')']) := by
  obtain ⟨hsign, hparts⟩ := read_eq line
  have hlast : ∀ c ∈ (rest line).getLast?, Letter.isBlank c = false :=
    isBlank_takeVisibility (isBlank_getLast?_trimRight _)
  have hletters : letters t = ((read line).visibility.elim [] fun v => [v.sign]) ++
      letters (rest line) := by
    rw [hsign, rest, letters_takeVisibility, letters_trim, letters_erase h]
  obtain ⟨hform, hnone⟩ := shown_parts (read line).isMethod hlast
  rw [letters_label_eq, hparts, hletters, List.append_assoc]
  exact ⟨fun hm => by rw [hform hm], fun hm => by rw [hnone hm]⟩

/-- A static method with parameters and a result, as it is drawn. -/
theorem letters_label_static :
    Unclassified "{static} +count(a, b) : int".toList " +count(a, b) : int".toList ∧
      letters (read "{static} +count(a, b) : int").label.toList =
        letters " +count(a, b) : int".toList := by
  have hword : ∃ w ∈ ["static", "classifier", "abstract"], Spells w "static".toList :=
    ⟨"static", by decide, by decide +kernel⟩
  have h : Unclassified "{static} +count(a, b) : int".toList " +count(a, b) : int".toList :=
    .classifier ⟨"static".toList, hword⟩ (unclassified_of_not_mem (by decide))
  exact ⟨h, (letters_label h).1 fun _ => isSome_method_iff.1 (by decide +kernel)⟩

/-- A method with parentheses among its parameters is drawn with another pair of them. -/
theorem not_letters_label_nested :
    Unclassified "f(g(x))".toList "f(g(x))".toList ∧
      letters (read "f(g(x))").label.toList ≠ letters "f(g(x))".toList :=
  ⟨unclassified_of_not_mem (by decide), by decide +kernel⟩

end Member
end Class
end UmlDraw
