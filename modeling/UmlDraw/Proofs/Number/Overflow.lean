/-
# The range of doubles

Numbers are computed with integers, fractions and doubles.  A double rounds what does not fit in 53
binary digits, and nothing beyond its range is near to one.

The main statements are

* `Number.Reaches.add`, `Number.Reaches.sub` and `Number.Reaches.max`: lower bounds of results;
* `Number.Within.add`: lower and upper bounds of sums;
* `Double.isInfinite_ofInt_iff`: the integers that are too large for a double;
* `Number.isPlain_clean`: doubles are cleaned to plain numbers;
* `Number.Checked.add_clean`: what becomes of the sum of two plain numbers.
-/
import UmlDraw.Number.Checked
import UmlDraw.Proofs.Data.Outcome
import UmlDraw.Proofs.Number.Rounding
import UmlDraw.Proofs.Number.Value

namespace UmlDraw

/-! ## Bounds of numbers that are computed with rounding

What is computed from integers, fractions and doubles is rounded wherever a double takes part.  A
lower bound that a double stands for survives rounding, and so do lower and upper bounds together.
The bounds in use are halves of integers of moderate size.

A computation may also leave the range of doubles.  A number *reaches* a bound if it is not minus
infinity and, if it has a value, that is not below the bound. -/

namespace Double

open Float.Model (UnpackedFloat Format)
open Float.Model.UnpackedFloat (Sign)

variable {x y : Float} {c d p q r : Rat}

/-- Half of an integer of moderate size. -/
def IsHalf (c : Rat) : Prop :=
  ∃ n : Int, n.natAbs ≤ 2 ^ 53 ∧ c = n / 2

lemma IsHalf.representable (h : IsHalf c) : Representable c := by
  obtain ⟨n, hn, rfl⟩ := h
  rcases hn.lt_or_eq with hn | hn
  · exact ⟨n, -1, hn, by norm_num, by rw [zpow_neg_one, div_eq_mul_inv]⟩
  · rcases Int.natAbs_eq n with h | h
    · rw [h, hn]
      exact ⟨1, 52, by norm_num, by norm_num, by norm_num⟩
    · rw [h, hn]
      exact ⟨-1, 52, by norm_num, by norm_num, by norm_num⟩

lemma IsHalf.le (h : IsHalf c) : -2 ^ 52 ≤ c := by
  obtain ⟨n, hn, rfl⟩ := h
  have hcast : (-2 ^ 53 : Rat) ≤ n := by exact_mod_cast (by omega : -2 ^ 53 ≤ n)
  linarith

/-! ### Doubles -/

/-- A double without a value is infinite or no number. -/
lemma unpacked_of_none (h : Number.valueOfDouble? x = none) :
    unpacked x = .notANumber ∨ ∃ s, unpacked x = .infinity s := by
  rw [valueOfDouble?_eq] at h
  cases hx : unpacked x with
  | notANumber => exact .inl rfl
  | infinity s => exact .inr ⟨s, rfl⟩
  | zero s => rw [hx] at h; cases h
  | finite s m e hm => rw [hx] at h; cases h

lemma value_of_infinity {s : Sign} (h : unpacked x = .infinity s) :
    Number.valueOfDouble? x = none := by
  rw [valueOfDouble?_eq, h]
  rfl

lemma value_of_notANumber (h : unpacked x = .notANumber) : Number.valueOfDouble? x = none := by
  rw [valueOfDouble?_eq, h]
  rfl

/-- A double is not minus infinity, and its value, if it has one, is not below a bound. -/
structure Reaches (c : Rat) (x : Float) : Prop where
  ne_infinity : unpacked x ≠ .infinity .negative
  le : ∀ r, Number.valueOfDouble? x = some r → c ≤ r

lemma Reaches.of_value (hx : Number.valueOfDouble? x = some r) (h : c ≤ r) : Reaches c x where
  ne_infinity := fun hinf => by
    rw [value_of_infinity hinf] at hx
    cases hx
  le := fun r' hr' => by
    rw [hx] at hr'
    rwa [← Option.some.inj hr']

lemma Reaches.of_rounds {s : Rat} (h : Rounds s x) (hc : IsHalf c) (hs : c ≤ s) : Reaches c x := by
  rcases h with ⟨hr, h⟩ | ⟨hx, h⟩ | ⟨hx, h⟩
  · exact .of_value hr (h.lower c hc.representable hs)
  · refine ⟨by simp [hx], fun r hr => ?_⟩
    rw [value_of_infinity hx] at hr
    cases hr
  · have hpow : (2 : Rat) ^ 52 ≤ 2 ^ 1023 := pow_le_pow_right₀ one_le_two (by norm_num)
    exact absurd (hs.trans_lt h) (not_lt.2 ((neg_le_neg hpow).trans hc.le))

lemma unpacked_packed_notANumber : unpacked (packed .notANumber) = .notANumber := rfl

/-- The double has no value, but it is not minus infinity. -/
def IsLost (u : UnpackedFloat) : Prop :=
  u = .notANumber ∨ u = .infinity .positive

lemma Reaches.of_isLost {u : UnpackedFloat} (h : IsLost u) (hx : unpacked x = unpacked (packed u)) :
    Reaches c x := by
  rcases h with rfl | rfl
  · rw [unpacked_packed_notANumber] at hx
    exact ⟨by simp [hx], fun r hr => by rw [value_of_notANumber hx] at hr; cases hr⟩
  · rw [unpacked_packed_infinity] at hx
    exact ⟨by simp [hx], fun r hr => by rw [value_of_infinity hx] at hr; cases hr⟩

lemma Reaches.isLost (h : Reaches c x) (hx : Number.valueOfDouble? x = none) :
    IsLost (unpacked x) := by
  rcases unpacked_of_none hx with hnan | ⟨s, hs⟩
  · exact .inl hnan
  · cases s with
    | positive => exact .inr hs
    | negative => exact absurd hs h.ne_infinity

lemma Reaches.add (hx : Reaches c x) (hy : Reaches d y) (hcd : IsHalf (c + d)) :
    Reaches (c + d) (x + y) := by
  have hlost : IsLost (unpacked x) ∨ IsLost (unpacked y) →
      IsLost (UnpackedFloat.add Format.binary64 (unpacked x) (unpacked y)) := by
    have hinfx := hx.ne_infinity
    have hinfy := hy.ne_infinity
    generalize unpacked x = u at *
    generalize unpacked y = v at *
    rintro ((rfl | rfl) | (rfl | rfl))
    · exact .inl rfl
    · rcases v with (_ | _) | _ | _ | _
      · exact absurd rfl hinfy
      · exact .inr rfl
      · exact .inl rfl
      · exact .inr rfl
      · exact .inr rfl
    · rcases u with (_ | _) | _ | _ | _ <;> exact .inl rfl
    · rcases u with (_ | _) | _ | _ | _
      · exact absurd rfl hinfx
      · exact .inr rfl
      · exact .inl rfl
      · exact .inr rfl
      · exact .inr rfl
  cases hvx : Number.valueOfDouble? x with
  | none => exact .of_isLost (hlost (.inl (hx.isLost hvx))) rfl
  | some p =>
    cases hvy : Number.valueOfDouble? y with
    | none => exact .of_isLost (hlost (.inr (hy.isLost hvy))) rfl
    | some q => exact .of_rounds (rounds_add hvx hvy) hcd (add_le_add (hx.le p hvx) (hy.le q hvy))

/-- Something is taken away that has a value. -/
lemma Reaches.sub (hx : Reaches c x) (hy : Number.valueOfDouble? y = some q) (hq : q ≤ d)
    (hcd : IsHalf (c - d)) : Reaches (c - d) (x - y) := by
  cases hvx : Number.valueOfDouble? x with
  | none =>
    refine .of_isLost (u := UnpackedFloat.sub Format.binary64 (unpacked x) (unpacked y)) ?_ rfl
    rw [valueOfDouble?_eq] at hy
    rcases hx.isLost hvx with h | h <;>
    rcases exists_of_valueOf? hy with ⟨s, hs, -⟩ | ⟨s, m, e, hm, hs, -⟩ <;> rw [h, hs]
    · exact .inl rfl
    · exact .inl rfl
    · exact .inr rfl
    · exact .inr rfl
  | some p => exact .of_rounds (rounds_sub hvx hy) hcd (sub_le_sub (hx.le p hvx) hq)

end Double

/-! ## Integers that are too large for a double

An integer is rounded to 53 binary digits when it becomes a double.  The greatest double is
`2 ^ 1024 - 2 ^ 971`, and half a unit of its last digit is `2 ^ 970`: an integer that is not nearer
to zero than `2 ^ 1024 - 2 ^ 970` has no nearest double, and every other one has.

Numbers that were read in a text are integral doubles, as integers, and other doubles; such numbers
are *plain*.  A sum of two plain numbers fails to be plain only if both are integers and their sum
is too large. -/

namespace Double

open Float.Model (UnpackedFloat Format)
open Float.Model.UnpackedFloat (Sign)

/-- The first natural number that is too large for a double. -/
def overflow : Nat := 2 ^ 1024 - 2 ^ 970

variable {x : Float} {m : Nat} {k : Int}

lemma isInfinite_iff : isInfinite x = true ↔ ∃ s, unpacked x = .infinity s := by
  have hinfinity : unpacked infinity = .infinity .positive := rfl
  have hnegated : unpacked (-infinity) = .infinity .negative := rfl
  have hdef : isInfinite x =
      ((unpacked x).beq (.infinity .positive) || (unpacked x).beq (.infinity .negative)) := by
    rw [← hinfinity, ← hnegated]
    rfl
  rw [hdef]
  cases unpacked x with
  | infinity s => cases s <;> exact iff_of_true rfl ⟨_, rfl⟩
  | notANumber => simp [UnpackedFloat.beq, UnpackedFloat.compare]
  | zero s => simp [UnpackedFloat.beq, UnpackedFloat.compare]
  | finite s m e h => simp [UnpackedFloat.beq, UnpackedFloat.compare]

/-- A double with a value is not infinite. -/
lemma isInfinite_eq_false {q : Rat} (h : Number.valueOfDouble? x = some q) :
    isInfinite x = false := by
  refine Bool.eq_false_iff.2 fun hx => ?_
  obtain ⟨s, hs⟩ := isInfinite_iff.1 hx
  rw [value_of_infinity hs] at h
  cases h

lemma isInfinite_ofParts (negative : Bool) (hm : 0 < m) (h : Canonical m k) :
    isInfinite (ofParts negative m k) = true ↔ 971 < k := by
  rw [isInfinite_iff, unpacked_ofParts h, dif_neg hm.ne', unpacked_packed_finite hm h]
  split
  · next hk => exact iff_of_false nofun (not_lt.2 hk)
  · next hk => exact iff_of_true ⟨_, rfl⟩ (not_le.1 hk)

/-- Rounding goes up to the next power of two from half a unit below it on, because the last
mantissa before it is odd. -/
lemma roundDiv_eq_carry {n h : Nat} (hn : n < 2 ^ 53 * (2 * h)) :
    roundDiv n (2 * h) = 2 ^ 53 ↔ 2 ^ 53 * (2 * h) - h ≤ n := by
  have hh : 0 < h := by omega
  have hdiv := Nat.div_add_mod n (2 * h)
  have hmod := Nat.mod_lt n (mul_pos two_pos hh)
  have hq : n / (2 * h) < 2 ^ 53 := Nat.div_lt_of_lt_mul (by rwa [mul_comm] at hn)
  unfold roundDiv
  dsimp only
  generalize n / (2 * h) = q at hdiv hq ⊢
  generalize n % (2 * h) = r at hdiv hmod ⊢
  rcases (Nat.le_sub_one_of_lt hq).lt_or_eq with hless | rfl
  · have hn' : n < 2 * h * (2 ^ 53 - 1) := by
      have hstep : 2 * h * (q + 1) ≤ 2 * h * (2 ^ 53 - 1) := Nat.mul_le_mul_left _ hless
      rw [mul_add_one] at hstep
      omega
    refine iff_of_false ?_ (by omega)
    split
    · omega
    · split
      · omega
      · split <;> omega
  · have hodd : ((2 ^ 53 - 1) % 2 == 0) = false := by decide
    rw [hodd, if_neg Bool.false_ne_true]
    split
    · omega
    · split <;> omega

/-- The double nearest to a quotient up to the highest power of two of a double is finite. -/
lemma isInfinite_ofRatio_eq_false (negative : Bool) {num den : Nat} (hden : 0 < den)
    (h : (num / den : Rat) ≤ 2 ^ 1023) : isInfinite (ofRatio negative num den) = false := by
  have habs : |(negateIf negative (num / den) : Rat)| = num / den := by
    have hpos : (0 : Rat) ≤ num / den := div_nonneg (Nat.cast_nonneg num) (Nat.cast_nonneg den)
    unfold negateIf
    split
    · rw [abs_neg, abs_of_nonneg hpos]
    · rw [abs_of_nonneg hpos]
  obtain ⟨hlow, hhigh⟩ := abs_le.1 (habs.trans_le h)
  rcases rounds_ofRatio negative num hden with ⟨hr, -⟩ | ⟨-, hfar⟩ | ⟨-, hfar⟩
  · exact isInfinite_eq_false hr
  · exact absurd hfar (not_lt.2 hhigh)
  · exact absurd hfar (not_lt.2 hlow)

lemma isInfinite_ofInt_eq_false {n : Int} (h : n.natAbs ≤ 2 ^ 1023) :
    isInfinite (ofInt n) = false := by
  refine isInfinite_ofRatio_eq_false _ one_pos ?_
  rw [Nat.cast_one, div_one]
  exact_mod_cast h

/-- The double nearest to a large integer, by its highest power of two. -/
lemma ofInt_eq {n : Int} {k : Nat} (hlow : 2 ^ (k + 52) ≤ n.natAbs)
    (hhigh : n.natAbs < 2 ^ (k + 53)) :
    ofInt n =
      if roundDiv n.natAbs (2 ^ k) = 2 ^ 53 then ofParts (n < 0) (2 ^ 52) (k + 1)
      else ofParts (n < 0) (roundDiv n.natAbs (2 ^ k)) k := by
  have hlog : n.natAbs.log2 = k + 52 := by
    have hpos : n.natAbs ≠ 0 := (lt_of_lt_of_le (Nat.two_pow_pos _) hlow).ne'
    have hge := (Nat.le_log2 hpos).2 hlow
    have hlt := (Nat.log2_lt hpos).2 hhigh
    omega
  have hpow : ∀ j : Nat, pow2 j = 2 ^ j := fun j => Nat.pow_eq
  have hlogOne : Nat.log2 1 = 0 := rfl
  have hguess : (0 : Int) ≤ ((k + 52 : Nat) : Int) - ((0 : Nat) : Int) := by omega
  have hmax : max (((k + 52 : Nat) : Int) - ((0 : Nat) : Int) - 52) (-1074) = k := by omega
  have hbelow : ¬ n.natAbs < 2 ^ (((k + 52 : Nat) : Int) - ((0 : Nat) : Int)).toNat :=
    not_lt.2 hlow
  have hnum : ¬ (n.natAbs == 0) = true := by
    have hpos := lt_of_lt_of_le (Nat.two_pow_pos _) hlow
    rw [beq_iff_eq]
    exact hpos.ne'
  unfold ofInt ofRatio
  rw [if_neg hnum]
  simp only [hlog, hlogOne, hpow, if_pos hguess, if_neg hbelow, hmax, Int.toNat_natCast, one_mul,
    if_pos (Int.natCast_nonneg k), beq_iff_eq]

/-- Rounding a large integer is infinite from the power on that doubles lack. -/
lemma isInfinite_ofInt_of_le {n : Int} {k : Nat} (hlow : 2 ^ (k + 52) ≤ n.natAbs)
    (hhigh : n.natAbs < 2 ^ (k + 53)) :
    isInfinite (ofInt n) = true ↔ 971 < k ∨ k = 971 ∧ roundDiv n.natAbs (2 ^ k) = 2 ^ 53 := by
  have heq := ofInt_eq hlow hhigh
  obtain ⟨hfloor, hceil⟩ := roundDiv_spec n.natAbs (Nat.two_pow_pos k)
  rw [add_comm, pow_add] at hlow hhigh
  have hleast : 2 ^ 52 ≤ roundDiv n.natAbs (2 ^ k) := hfloor _ hlow
  have hmost : roundDiv n.natAbs (2 ^ k) ≤ 2 ^ 53 := hceil _ hhigh.le
  rw [heq]
  split
  · next hcarry =>
    have hcanonical : Canonical (2 ^ 52) ((k : Int) + 1) := ⟨by norm_num, by omega, .inl le_rfl⟩
    rw [isInfinite_ofParts _ (by norm_num) hcanonical]
    omega
  · next hcarry =>
    have hcanonical : Canonical (roundDiv n.natAbs (2 ^ k)) k :=
      ⟨lt_of_le_of_ne hmost hcarry, by omega, .inl hleast⟩
    rw [isInfinite_ofParts _ (lt_of_lt_of_le (by norm_num) hleast) hcanonical]
    omega

/-- The highest power of two in a large number. -/
lemma exists_power {n k : Nat} (h : 2 ^ (k + 52) ≤ n) :
    ∃ j, k ≤ j ∧ 2 ^ (j + 52) ≤ n ∧ n < 2 ^ (j + 53) := by
  have hpos : n ≠ 0 := (lt_of_lt_of_le (Nat.two_pow_pos _) h).ne'
  have hlog : k + 52 ≤ n.log2 := (Nat.le_log2 hpos).2 h
  refine ⟨n.log2 - 52, by omega, (Nat.le_log2 hpos).1 (by omega), (Nat.log2_lt hpos).1 (by omega)⟩

/-- The bound lies between two powers of two. -/
lemma overflow_bounds : 2 ^ 1023 < overflow ∧ overflow ≤ 2 ^ 1024 := by
  have hhalf : 2 ^ 1024 = 2 * 2 ^ 1023 := by rw [← pow_succ']
  have hsmall : 2 ^ 970 < 2 ^ 1023 := pow_lt_pow_right₀ one_lt_two (by norm_num)
  unfold overflow
  omega

/-- The integers that are too large for a double. -/
theorem isInfinite_ofInt_iff (n : Int) : isInfinite (ofInt n) = true ↔ overflow ≤ n.natAbs := by
  obtain ⟨hlower, hupper⟩ := overflow_bounds
  rcases le_or_gt n.natAbs (2 ^ 1023) with hsmall | hlarge
  · rw [isInfinite_ofInt_eq_false hsmall]
    exact iff_of_false Bool.false_ne_true (not_le.2 (hsmall.trans_lt hlower))
  · rcases lt_or_ge n.natAbs (2 ^ 1024) with hlt | hge
    · have hunit : (2 ^ 971 : Nat) = 2 * 2 ^ 970 := by rw [← pow_succ']
      have htop : (2 ^ 1024 : Nat) = 2 ^ 53 * (2 * 2 ^ 970) := by rw [← hunit, ← pow_add]
      have hcarry := roundDiv_eq_carry (n := n.natAbs) (h := 2 ^ 970) (htop ▸ hlt)
      have hlow : 2 ^ (971 + 52) ≤ n.natAbs := by simpa only [Nat.reduceAdd] using hlarge.le
      have hhigh : n.natAbs < 2 ^ (971 + 53) := by simpa only [Nat.reduceAdd] using hlt
      rw [← htop] at hcarry
      unfold overflow
      rw [isInfinite_ofInt_of_le hlow hhigh, hunit, hcarry, or_iff_right (lt_irrefl _),
        and_iff_right rfl]
    · have hpower : 2 ^ (972 + 52) ≤ n.natAbs := by simpa only [Nat.reduceAdd] using hge
      obtain ⟨k, hk, hlow, hhigh⟩ := exists_power hpower
      rw [isInfinite_ofInt_of_le hlow hhigh]
      exact iff_of_true (.inl hk) (hupper.trans hge)

lemma bounds_of_parts? (h : parts? x = some (m, k)) : m < 2 ^ 53 ∧ k ≤ 971 := by
  rcases unpacked_cases x with ⟨hparts, -⟩ | ⟨hparts, -⟩ | ⟨m', k', -, hparts, -, hm, -, hk, -⟩
  · rw [hparts] at h
    cases h
  · obtain ⟨rfl, rfl⟩ := Prod.mk.inj (Option.some.inj (hparts.symm.trans h))
    exact ⟨by norm_num, by norm_num⟩
  · obtain ⟨rfl, rfl⟩ := Prod.mk.inj (Option.some.inj (hparts.symm.trans h))
    exact ⟨hm, hk⟩

/-- A finite double is below the bound, as its mantissa and its power are. -/
lemma div_lt_of_ratio? {num den : Nat} (h : ratio? x = some (num, den)) :
    num / den < overflow := by
  obtain ⟨⟨m, k⟩, hparts, hratio⟩ := Option.map_eq_some_iff.1 h
  obtain ⟨hm, hk⟩ := bounds_of_parts? hparts
  have hpow : ∀ j : Nat, pow2 j = 2 ^ j := fun j => Nat.pow_eq
  have hmost : num / den ≤ m * 2 ^ 971 := by
    dsimp only at hratio
    split at hratio
    · obtain ⟨rfl, rfl⟩ := Prod.mk.inj hratio
      rw [hpow, Nat.div_one]
      exact Nat.mul_le_mul_left m (pow_le_pow_right₀ one_le_two (by omega))
    · obtain ⟨rfl, rfl⟩ := Prod.mk.inj hratio
      exact (Nat.div_le_self _ _).trans (Nat.le_mul_of_pos_right m (by positivity))
  have hless : m * 2 ^ 971 ≤ (2 ^ 53 - 1) * 2 ^ 971 := Nat.mul_le_mul_right _ (by omega)
  have hunit : (2 ^ 971 : Nat) = 2 * 2 ^ 970 := by rw [← pow_succ']
  have htop : (2 ^ 1024 : Nat) = 2 ^ 53 * 2 ^ 971 := by rw [← pow_add]
  have hpos : 0 < (2 ^ 970 : Nat) := by positivity
  unfold overflow
  omega

/-- An integer that a double stands for is not too large. -/
lemma natAbs_toInt?_lt {n : Int} (h : toInt? x = some n) : n.natAbs < overflow := by
  obtain ⟨⟨num, den⟩, hratio, hn⟩ := Option.bind_eq_some_iff.1 h
  have hless := div_lt_of_ratio? hratio
  dsimp only at hn
  split at hn
  · have hnatAbs : n.natAbs = num / den := by
      rw [← Option.some.inj hn, ← Int.natCast_ediv]
      split
      · rw [Int.natAbs_neg, Int.natAbs_natCast]
      · rw [Int.natAbs_natCast]
    rwa [hnatAbs]
  · cases hn

end Double

namespace Number

open Double

/-- A number as it is read: an integer that is not too large for a double, or a double. -/
inductive IsPlain : Number → Prop
  | int {n : Int} (h : n.natAbs < overflow) : IsPlain (int n)
  | real (x : Float) : IsPlain (real x)

variable {a b : Number}

lemma isPlain_clean (x : Float) : (clean x).IsPlain := by
  unfold clean
  split
  · next n hn => exact .int (natAbs_toInt?_lt hn)
  · exact .real x

lemma toDouble?_int (n : Int) :
    (int n).toDouble? = if overflow ≤ n.natAbs then none else some (ofInt n) := by
  change (if isInfinite (ofInt n) = true then none else some (ofInt n)) = _
  simp only [isInfinite_ofInt_iff]

/-- A plain number meets doubles. -/
lemma IsPlain.exists_double (h : a.IsPlain) : ∃ x, a.toDouble? = some x := by
  cases h with
  | int h => exact ⟨_, (toDouble?_int _).trans (if_neg (not_le.2 h))⟩
  | real x => exact ⟨x, rfl⟩

lemma IsPlain.fault?_eq (h : a.IsPlain) : a.fault? = none := by
  cases h <;> rfl

/-- Half of a plain number is a double. -/
lemma IsPlain.fault?_half (h : a.IsPlain) : (half a).fault? = none := by
  cases h with
  | real x => rfl
  | @int n hn =>
    have hquotient : ((n.natAbs : Nat) / (2 : Nat) : Rat) ≤ 2 ^ 1023 := by
      have hless : (n.natAbs : Rat) ≤ 2 ^ 1024 := by
        exact_mod_cast hn.le.trans overflow_bounds.2
      rw [Nat.cast_ofNat, div_le_iff₀ two_pos, ← pow_succ]
      exact hless
    have hfinite : isInfinite (divInt n 2) = false :=
      isInfinite_ofRatio_eq_false _ two_pos hquotient
    have hhalf : half (.int n) =
        if isInfinite (divInt n 2) = true then .tooLarge else .real (divInt n 2) := rfl
    rw [hhalf, if_neg (ne_true_of_eq_false hfinite)]
    rfl

/-- Two integers whose sum is too large for a double. -/
def SumOverflows (a b : Number) : Prop :=
  ∃ m n, a = int m ∧ b = int n ∧ overflow ≤ (m + n).natAbs

instance : (a b : Number) → Decidable (SumOverflows a b)
  | int m, int n => decidable_of_iff (overflow ≤ (m + n).natAbs)
      ⟨fun h => ⟨m, n, rfl, rfl, h⟩, fun ⟨_, _, hm, hn, h⟩ => int.inj hm ▸ int.inj hn ▸ h⟩
  | int _, ratio _ | int _, real _ | int _, tooLarge => isFalse fun ⟨_, _, _, h, _⟩ => nomatch h
  | ratio _, _ | real _, _ | tooLarge, _ => isFalse fun ⟨_, _, h, _⟩ => nomatch h

/-- The cleaned sum of two plain numbers is plain, unless it is too large. -/
theorem Checked.add_clean (ha : a.IsPlain) (hb : b.IsPlain) :
    SumOverflows a b ∧ (Checked.add a b >>= Checked.clean) = .error .tooLarge ∨
      ¬ SumOverflows a b ∧ ∃ c, c.IsPlain ∧ (Checked.add a b >>= Checked.clean) = .ok c := by
  -- a sum with a double is a double, which is cleaned to a plain number
  have hdouble : ∀ {a b : Number} {x y : Float}, a + b = combineDoubles (· + ·) a b →
      a.toDouble? = some x → b.toDouble? = some y → ¬ SumOverflows a b →
      SumOverflows a b ∧ (Checked.add a b >>= Checked.clean) = .error .tooLarge ∨
        ¬ SumOverflows a b ∧ ∃ c, c.IsPlain ∧ (Checked.add a b >>= Checked.clean) = .ok c := by
    intro a b x y hadd hx hy hno
    refine .inr ⟨hno, Number.clean (x + y), isPlain_clean _, ?_⟩
    rw [Checked.add, hadd, combineDoubles, hx, hy]
    rfl
  obtain ⟨x, hx⟩ := ha.exists_double
  obtain ⟨y, hy⟩ := hb.exists_double
  cases ha with
  | real u => exact hdouble rfl hx hy (by rintro ⟨m, n, h, -⟩; cases h)
  | @int m hm =>
    cases hb with
    | real v => exact hdouble rfl hx hy (by rintro ⟨m, n, -, h, -⟩; cases h)
    | @int n hn =>
      have hclean : (Checked.add (int m) (int n) >>= Checked.clean) =
          Checked.clean (int (m + n)) := rfl
      rw [hclean, Checked.clean, Checked.toDouble, toDouble?_int]
      by_cases hsum : overflow ≤ (m + n).natAbs
      · rw [if_pos hsum]
        exact .inl ⟨⟨m, n, rfl, rfl, hsum⟩, rfl⟩
      · rw [if_neg hsum]
        refine .inr ⟨?_, int (m + n), .int (not_le.1 hsum), rfl⟩
        rintro ⟨m', n', hm', hn', hsum'⟩
        obtain rfl := Number.int.inj hm'
        obtain rfl := Number.int.inj hn'
        exact hsum hsum'

end Number
end UmlDraw
