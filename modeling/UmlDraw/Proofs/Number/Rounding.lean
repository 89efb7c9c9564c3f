/-
# Rounding to a double

A double is found for a number by cutting off its last binary digits and going up by one or not.
Such a rounding is *faithful*: it never jumps over a number that a double stands for.  So bounds
that doubles stand for, whole numbers up to `2 ^ 53` among them, hold of the rounded number as they
hold of the exact one.

The main statements are

* `Double.faithful_of_floor`: cutting off digits is faithful;
* `Double.rounds_add`, `Double.rounds_sub`: sums and differences of doubles;
* `Double.rounds_ofRatio`: the double nearest to a quotient.
-/
import Mathlib.Tactic.LinearCombination
import UmlDraw.Proofs.Number.Value

namespace UmlDraw
namespace Double

open Float.Model (UnpackedFloat Format)
open Float.Model.UnpackedFloat

/-! ### Faithful roundings -/

/-- A number is a mantissa of at most 53 bits times a power of two that is not too low. -/
def Representable (q : Rat) : Prop :=
  ∃ n e : Int, n.natAbs < 2 ^ 53 ∧ -1074 ≤ e ∧ q = n * 2 ^ e

/-- No representable number lies between a number and its rounding. -/
structure Faithful (s r : Rat) : Prop where
  lower : ∀ q, Representable q → q ≤ s → q ≤ r
  upper : ∀ q, Representable q → s ≤ q → r ≤ q

variable {q r s : Rat}

lemma Representable.neg (h : Representable q) : Representable (-q) := by
  obtain ⟨n, e, hn, he, rfl⟩ := h
  exact ⟨-n, e, by rwa [Int.natAbs_neg], he, by push_cast; ring⟩

lemma Faithful.neg (h : Faithful s r) : Faithful (-s) (-r) where
  lower := fun q hq hqs => by have := h.upper (-q) hq.neg (by linarith); linarith
  upper := fun q hq hqs => by have := h.lower (-q) hq.neg (by linarith); linarith

lemma faithful_refl (q : Rat) : Faithful q q :=
  ⟨fun _ _ h => h, fun _ _ h => h⟩

/-- A representable number is its own rounding. -/
lemma Faithful.eq (h : Faithful s r) (hs : Representable s) : r = s :=
  (h.upper s hs le_rfl).antisymm (h.lower s hs le_rfl)

lemma representable_zpow {e : Int} (he : -1074 ≤ e) : Representable (2 ^ e) :=
  ⟨1, e, by norm_num, he, by simp⟩

/-- Digits of a number are cut off where a mantissa of 53 bits ends, or at the lowest power. -/
theorem faithful_of_floor {m : Nat} {t : Int} (hs : 0 ≤ s) (hnormal : t = -1074 ∨ 2 ^ 52 * 2 ^ t ≤ s)
    (hlow : ∀ n : Nat, n * 2 ^ t ≤ s → n ≤ m) (hhigh : ∀ n : Nat, s ≤ n * 2 ^ t → m ≤ n) :
    Faithful s (m * 2 ^ t) := by
  have hpos : (0 : Rat) < 2 ^ t := by positivity
  -- a representable number is a multiple of the last digit, or it lies below all mantissas
  have hcases : ∀ {q}, Representable q → 0 < q →
      (∃ n : Nat, q = n * 2 ^ t) ∨ 2 ^ 52 * 2 ^ t ≤ s ∧ q < 2 ^ 52 * 2 ^ t := by
    rintro q ⟨n, e, hn, he, rfl⟩ hq
    have hn0 : 0 < n := by
      have : (0 : Rat) < 2 ^ e := by positivity
      exact_mod_cast (mul_pos_iff_of_pos_right this).1 hq
    obtain ⟨k, rfl⟩ := Int.eq_ofNat_of_zero_le hn0.le
    by_cases hte : t ≤ e
    · obtain ⟨d, hd⟩ := Int.eq_ofNat_of_zero_le (sub_nonneg.2 hte)
      refine .inl ⟨k * 2 ^ d, ?_⟩
      obtain rfl : e = d + t := by omega
      push_cast
      rw [zpow_add₀ two_ne_zero, zpow_natCast, mul_assoc]
    · have hk : ((k : Int) : Rat) < 2 ^ 53 := by
        rw [Int.cast_natCast]
        exact_mod_cast hn
      refine .inr ⟨hnormal.resolve_left (by omega), ?_⟩
      calc ((k : Int) : Rat) * 2 ^ e < 2 ^ 53 * 2 ^ e := by gcongr
        _ ≤ 2 ^ 53 * 2 ^ (t - 1) := by
          gcongr
          · norm_num
          · omega
        _ = 2 ^ 52 * 2 ^ t := by
          rw [zpow_sub_one₀ two_ne_zero]
          ring
  constructor
  · intro q hq hqs
    by_cases hq0 : 0 < q
    · rcases hcases hq hq0 with ⟨n, rfl⟩ | ⟨hbig, hless⟩
      · have : (n : Rat) ≤ m := by exact_mod_cast hlow n hqs
        gcongr
      · have h52 : (2 : Rat) ^ 52 ≤ m := by exact_mod_cast hlow (2 ^ 52) (by exact_mod_cast hbig)
        refine hless.le.trans ?_
        gcongr
    · exact (not_lt.1 hq0).trans (by positivity)
  · intro q hq hsq
    by_cases hq0 : 0 < q
    · rcases hcases hq hq0 with ⟨n, rfl⟩ | ⟨hbig, hless⟩
      · have : (m : Rat) ≤ n := by exact_mod_cast hhigh n hsq
        gcongr
      · exact absurd hsq (not_le.2 (hless.trans_le hbig))
    · have hs0 : s = 0 := le_antisymm (hsq.trans (not_lt.1 hq0)) hs
      have hm := hhigh 0 (by simp [hs0])
      obtain rfl : m = 0 := by omega
      simpa [hs0] using hsq

/-! ### Packing -/

lemma toNat_one_append (m : BitVec 52) : (1#1 ++ m).toNat = 2 ^ 52 + m.toNat := by
  rw [BitVec.toNat_append, ← Nat.shiftLeft_add_eq_or_of_lt m.isLt]
  rfl

lemma unpackSign_packComponents (sign : Sign) (e : BitVec 11) (m : BitVec 52) :
    Sign.ofBitVec (@unpackSign Format.binary64
      (packComponents Format.binary64 sign e m)) = sign := by
  have h : @unpackSign Format.binary64 (packComponents Format.binary64 sign e m) =
      sign.toBitVec := by
    refine BitVec.eq_of_getLsbD_eq fun i hi => ?_
    obtain rfl : i = 0 := by omega
    have hlast : (sign.toBitVec ++ e ++ m).getLsbD 63 = sign.toBitVec.getLsbD 0 := by
      rw [BitVec.getLsbD_append, if_neg (by omega), BitVec.getLsbD_append, if_neg (by omega)]
    rw [← hlast]
    simp [unpackSign, packComponents]
    rfl
  rw [h]
  cases sign <;> rfl

lemma unpack_infinite (sign : Sign) :
    UnpackedFloat.unpack Format.binary64 (packComponents Format.binary64 sign (-1#_) 0#_) =
      .infinity sign := by
  cases sign <;> rfl

lemma unpack_subnormal (sign : Sign) (m : BitVec 52) :
    UnpackedFloat.unpack Format.binary64 (packComponents Format.binary64 sign 0#_ m) =
      if h : m.toNat = 0 then .zero sign
      else .finite sign m.toNat (-1074) (Nat.pos_of_ne_zero h) := by
  unfold UnpackedFloat.unpack
  simp only [unpackMantissa_packComponents, unpackExponent_packComponents,
    unpackSign_packComponents]
  rw [if_neg (by decide), if_pos trivial]
  by_cases h : m = 0#_
  · rw [dif_pos h, dif_pos (by rw [h]; rfl)]
  · have hnat : m.toNat ≠ 0 := fun h' => h (BitVec.eq_of_toNat_eq h')
    rw [dif_neg h, dif_neg hnat]
    rfl

lemma unpack_normal (sign : Sign) {e : BitVec 11} (m : BitVec 52) (h0 : e.toNat ≠ 0)
    (h1 : e.toNat ≠ 2047) :
    UnpackedFloat.unpack Format.binary64 (packComponents Format.binary64 sign e m) =
      .finite sign (2 ^ 52 + m.toNat) ((e.toNat : Int) - 1075) (by omega) := by
  unfold UnpackedFloat.unpack
  simp only [unpackMantissa_packComponents, unpackExponent_packComponents,
    unpackSign_packComponents]
  rw [if_neg fun h => h1 (by rw [h]; rfl), if_neg fun h => h0 (by rw [h]; rfl)]
  congr 1
  exact toNat_one_append m

/-- An unpacked double with a value has the mantissa and the power that its format asks for; the
power may be too high. -/
def IsCanonical : UnpackedFloat → Prop
  | .zero _ => True
  | .finite _ m e _ => Canonical m e
  | _ => False

/-- The double with the given parts. -/
def packed (u : UnpackedFloat) : Float :=
  Float.ofModel (Float.Model.pack u)

lemma unpacked_packed (u : UnpackedFloat) : unpacked (packed u) =
    UnpackedFloat.unpack Format.binary64 (UnpackedFloat.pack Format.binary64 u) := rfl

lemma unpacked_packed_infinity (s : Sign) : unpacked (packed (.infinity s)) = .infinity s := by
  cases s <;> rfl

lemma unpacked_packed_zero (s : Sign) : unpacked (packed (.zero s)) = .zero s := by
  cases s <;> rfl

lemma unpacked_packed_finite {s : Sign} {m : Nat} {e : Int} (h : 0 < m) (hc : Canonical m e) :
    unpacked (packed (.finite s m e h)) = if e ≤ 971 then .finite s m e h else .infinity s := by
  have hlow := hc.lowest
  have hm := hc.mantissa
  have hbiased : (e + (Format.binary64.exponentBias : Int) + (52 : Nat)).toNat =
      (e + 1075).toNat := by
    have hbias : (Format.binary64.exponentBias : Int) = 1023 := rfl
    rw [hbias]
    omega
  have hlog : m.log2 + 1 = Format.binary64.mantissaBits ↔ 2 ^ 52 ≤ m := by
    change m.log2 + 1 = 53 ↔ _
    have hlt : m.log2 < 53 := (Nat.log2_lt h.ne').2 hm
    rw [← Nat.le_log2 h.ne']
    omega
  rw [unpacked_packed, pack]
  simp only [hbiased, hlog]
  by_cases hinf : e ≤ 971
  · rw [if_pos hinf, if_neg (by omega)]
    split
    · next hnormal =>
      have he : (BitVec.ofNat 11 (e + 1075).toNat).toNat = (e + 1075).toNat :=
        Nat.mod_eq_of_lt (by omega)
      have hfraction : (BitVec.ofNat 52 m).toNat = m - 2 ^ 52 := by
        rw [BitVec.toNat_ofNat]
        omega
      rw [unpack_normal _ _ (by omega) (by omega)]
      congr 1 <;> omega
    · next hsub =>
      obtain rfl : e = -1074 := hc.normal.resolve_left hsub
      have hfraction : (BitVec.ofNat 52 m).toNat = m := Nat.mod_eq_of_lt (by omega)
      rw [unpack_subnormal, dif_neg (by omega)]
      congr 1
  · rw [if_neg hinf, if_pos (by omega)]
    exact unpacked_packed_infinity s

/-! ### Rounding an unpacked double -/

/-- The double rounds a number, but its power may be too high. -/
def RoundsTo (s : Rat) (u : UnpackedFloat) : Prop :=
  IsCanonical u ∧ ∃ r, valueOf? u = some r ∧ Faithful s r

lemma exact_iff (em : ExtendedMantissa) :
    em.accuracy = .exact ↔ em.roundBit = false ∧ em.stickyBit = false := by
  obtain ⟨m, round, sticky⟩ := em
  cases round <;> cases sticky <;> simp [ExtendedMantissa.accuracy]

/-- Binary digits are cut off one after the other. -/
lemma shiftRight_eq (m k : Nat) :
    ((ExtendedMantissa.ofMantissaAndAccuracy m .exact) >>> k).mantissa = m / 2 ^ k ∧
      (((ExtendedMantissa.ofMantissaAndAccuracy m .exact) >>> k).accuracy = .exact ↔
        m % 2 ^ k = 0) := by
  induction k with
  | zero =>
    refine ⟨(Nat.div_one m).symm, ?_⟩
    rw [pow_zero, Nat.mod_one]
    exact iff_of_true rfl rfl
  | succ k ih =>
    obtain ⟨hm, hexact⟩ := ih
    have hstep : (ExtendedMantissa.ofMantissaAndAccuracy m .exact) >>> (k + 1) =
        ((ExtendedMantissa.ofMantissaAndAccuracy m .exact) >>> k).shiftRightOne := rfl
    rw [hstep]
    constructor
    · rw [ExtendedMantissa.shiftRightOne, hm, Nat.div_div_eq_div_mul, pow_succ]
    · rw [exact_iff] at hexact ⊢
      simp only [ExtendedMantissa.shiftRightOne, hm, bne_eq_false_iff_eq, Bool.or_eq_false_iff,
        hexact]
      rw [pow_succ, Nat.mod_mul]
      have := Nat.two_pow_pos k
      constructor
      · rintro ⟨h, h'⟩
        rw [h, h', Nat.mul_zero]
      · intro h
        have := Nat.eq_zero_of_add_eq_zero h
        refine ⟨?_, this.1⟩
        rcases Nat.mul_eq_zero.1 this.2 with h | h
        · omega
        · exact h

/-- A quotient is rounded up or down, and not at all if nothing remains. -/
lemma between_of_div {num den r : Nat} (hden : 0 < den) (hlow : num / den ≤ r)
    (hhigh : r ≤ num / den + 1) (hexact : num % den = 0 → r = num / den) :
    (∀ n, n * den ≤ num → n ≤ r) ∧ ∀ n, num ≤ n * den → r ≤ n := by
  constructor
  · intro n hn
    exact ((Nat.le_div_iff_mul_le hden).2 hn).trans hlow
  · intro n hn
    by_cases hzero : num % den = 0
    · rw [hexact hzero]
      exact Nat.div_le_of_le_mul (by rwa [Nat.mul_comm])
    · have hlt : num / den < n := by
        rw [Nat.div_lt_iff_lt_mul hden]
        refine lt_of_le_of_ne hn fun h => hzero ?_
        rw [h, Nat.mul_mod_left]
      omega

/-- The digits that are cut off round a mantissa up or down, and not at all if they are zero. -/
lemma roundedMantissa_shiftRight (m k : Nat) :
    let r := ((ExtendedMantissa.ofMantissaAndAccuracy m .exact) >>> k).roundedMantissa
    (∀ n, n * 2 ^ k ≤ m → n ≤ r) ∧ ∀ n, m ≤ n * 2 ^ k → r ≤ n := by
  intro r
  obtain ⟨hm, hexact⟩ := shiftRight_eq m k
  have hr : m / 2 ^ k ≤ r ∧ r ≤ m / 2 ^ k + 1 ∧ (m % 2 ^ k = 0 → r = m / 2 ^ k) := by
    rw [← hexact, ← hm]
    change _ ≤ Accuracy.roundToNearestEven _ _ ∧ Accuracy.roundToNearestEven _ _ ≤ _ ∧
      (_ → Accuracy.roundToNearestEven _ _ = _)
    cases ((ExtendedMantissa.ofMantissaAndAccuracy m .exact) >>> k).accuracy with
    | exact => exact ⟨le_rfl, Nat.le_succ _, fun _ => rfl⟩
    | inexact o =>
      refine ⟨?_, ?_, fun h => nomatch h⟩
      · cases o <;> simp only [Accuracy.roundToNearestEven] <;> omega
      · cases o <;> simp only [Accuracy.roundToNearestEven] <;> omega
  exact between_of_div (Nat.two_pow_pos k) hr.1 hr.2.1 hr.2.2

/-- The power that a mantissa and a power should have. -/
lemma targetExponent_eq (m : Nat) (e : Int) :
    Format.binary64.targetExponent (Float.Model.totalExponent m e) =
      max ((m.log2 : Int) + e - 52) (-1074) := by
  have hbits : (Format.binary64.mantissaBits : Int) = 53 := rfl
  have hmin : Format.binary64.minExponent = -1074 := rfl
  unfold Format.targetExponent Float.Model.totalExponent
  omega

lemma roundsTo_zero (sign : Sign) : RoundsTo 0 (.zero sign) :=
  ⟨trivial, 0, rfl, faithful_refl 0⟩

lemma shiftToTargetExponent_eq (m k : Nat) {e : Int}
    (hk : max ((m.log2 : Int) + e - 52) (-1074) - e = k ∨
      k = 0 ∧ max ((m.log2 : Int) + e - 52) (-1074) ≤ e) :
    shiftToTargetExponent Format.binary64 m e .exact =
      ((ExtendedMantissa.ofMantissaAndAccuracy m .exact) >>> k, e + k) := by
  have hshift : (max ((m.log2 : Int) + e - 52) (-1074) - e).toNat = k := by omega
  rw [shiftToTargetExponent, targetExponent_eq, shiftToExponent, hshift]

/-- A finite double, or zero. -/
lemma isCanonical_of_mantissa (sign : Sign) {m : Nat} {e : Int} (hm : m < 2 ^ 53) (he : -1074 ≤ e)
    (hnormal : 2 ^ 52 ≤ m ∨ e = -1074) :
    let u := if h : m = 0 then UnpackedFloat.zero sign
      else .finite sign m e (Nat.pos_of_ne_zero h)
    IsCanonical u ∧ valueOf? u = some ((sign.apply m : Int) * (2 : Rat) ^ e) := by
  intro u
  by_cases h : m = 0
  · have hu : u = .zero sign := dif_pos h
    rw [hu, h]
    refine ⟨trivial, ?_⟩
    cases sign <;> simp [valueOf?, Sign.apply]
  · have hu : u = .finite sign m e (Nat.pos_of_ne_zero h) := dif_neg h
    rw [hu]
    exact ⟨⟨hm, he, hnormal⟩, rfl⟩

/-- A mantissa that has become too long by rounding is cut once more, without loss. -/
lemma isCanonical_carry (sign : Sign) {m : Nat} {t : Int} (hm : m ≤ 2 ^ 53) (ht : -1074 ≤ t)
    (hnormal : 2 ^ 52 ≤ m ∨ t = -1074) :
    let em := shiftToTargetExponent Format.binary64 m t .exact
    let u := if h : em.1.mantissa = 0 then UnpackedFloat.zero sign
      else .finite sign em.1.mantissa em.2 (Nat.pos_of_ne_zero h)
    IsCanonical u ∧ valueOf? u = some ((sign.apply m : Int) * (2 : Rat) ^ t) := by
  rcases hm.lt_or_eq with hlt | rfl
  · have hlog : m.log2 ≤ 52 := by
      by_cases h : m = 0
      · simp [h]
      · exact Nat.le_of_lt_succ ((Nat.log2_lt h).2 hlt)
    have hshift := shiftToTargetExponent_eq m 0 (e := t) (.inr ⟨rfl, by omega⟩)
    rw [hshift]
    simpa [(shiftRight_eq m 0).1] using isCanonical_of_mantissa sign hlt ht hnormal
  · have hlog : (2 ^ 53 : Nat).log2 = 53 := Nat.log2_two_pow
    have hshift := shiftToTargetExponent_eq (2 ^ 53) 1 (e := t) (.inl (by omega))
    have hhalf : (2 ^ 53 / 2 ^ 1 : Nat) = 2 ^ 52 := rfl
    have hcanonical := isCanonical_of_mantissa sign (m := 2 ^ 52) (e := t + 1)
      (by norm_num) (by omega) (.inl le_rfl)
    have hvalue : ((sign.apply (2 ^ 52 : Nat) : Int) : Rat) * 2 ^ (t + 1) =
        (sign.apply (2 ^ 53 : Nat) : Int) * 2 ^ t := by
      rw [zpow_add_one₀ two_ne_zero]
      cases sign <;> simp only [Sign.apply] <;> push_cast <;> ring
    rw [hshift]
    rw [hvalue] at hcanonical
    simpa only [(shiftRight_eq (2 ^ 53) 1).1, hhalf, Nat.cast_one] using hcanonical

lemma roundsTo_roundWithAccuracy {sign : Sign} {m : Nat} {e : Int} (hm : 0 < m)
    (he : e ≤ max ((m.log2 : Int) + e - 52) (-1074)) :
    RoundsTo ((sign.apply m : Int) * 2 ^ e)
      (roundWithAccuracy Format.binary64 sign m e .exact) := by
  generalize ht : max ((m.log2 : Int) + e - 52) (-1074) = t at he
  obtain ⟨k, hk⟩ := Int.eq_ofNat_of_zero_le (sub_nonneg.2 he)
  have hshift := shiftToTargetExponent_eq m k (e := e) (.inl (by omega))
  have hround := roundedMantissa_shiftRight m k
  generalize hr : ((ExtendedMantissa.ofMantissaAndAccuracy m .exact) >>> k).roundedMantissa = r
    at hround
  obtain ⟨hlow, hhigh⟩ := hround
  have hcarry : roundWithAccuracy Format.binary64 sign m e .exact =
      let em := shiftToTargetExponent Format.binary64 r t .exact
      if h : em.1.mantissa = 0 then .zero sign
      else .finite sign em.1.mantissa em.2 (Nat.pos_of_ne_zero h) := by
    have htk : e + k = t := by omega
    rw [roundWithAccuracy, hshift, ← hr, htk]
  have hpow : (2 : Rat) ^ t = 2 ^ k * 2 ^ e := by
    rw [← zpow_natCast, ← zpow_add₀ two_ne_zero]
    congr 1
    omega
  have hscale : ∀ n : Nat, (n : Rat) * 2 ^ t = ((n * 2 ^ k : Nat) : Rat) * 2 ^ e := by
    intro n
    rw [hpow]
    push_cast
    ring
  have hepos : (0 : Rat) < 2 ^ e := by positivity
  have hnormal : t = -1074 ∨ 2 ^ 52 * 2 ^ k ≤ m := by
    by_cases hlowest : t = -1074
    · exact .inl hlowest
    · have hlog : m.log2 = 52 + k := by omega
      rw [← pow_add, ← hlog]
      exact .inr (Nat.log2_self_le hm.ne')
  have hfaithful : Faithful ((m : Rat) * 2 ^ e) (r * 2 ^ t) := by
    refine faithful_of_floor (by positivity) (hnormal.imp_right fun h => ?_) ?_ ?_
    · have hcast : (2 : Rat) ^ 52 * 2 ^ k ≤ m := by exact_mod_cast h
      rw [hpow, ← mul_assoc]
      gcongr
    · intro n hn
      rw [hscale, mul_le_mul_iff_of_pos_right hepos, Nat.cast_le] at hn
      exact hlow n hn
    · intro n hn
      rw [hscale, mul_le_mul_iff_of_pos_right hepos, Nat.cast_le] at hn
      exact hhigh n hn
  have hr53 : r ≤ 2 ^ 53 := by
    have hlog : m.log2 < 53 + k := by omega
    rw [Nat.log2_lt hm.ne', pow_add] at hlog
    exact hhigh _ hlog.le
  have hcanonical := isCanonical_carry sign hr53 (t := t) (by omega)
    (hnormal.symm.imp_left fun h => hlow _ h)
  rw [hcarry]
  refine ⟨hcanonical.1, _, hcanonical.2, ?_⟩
  cases sign with
  | positive => simpa [Sign.apply] using hfaithful
  | negative => simpa [Sign.apply] using hfaithful.neg

lemma log2_shiftLeft {m : Nat} (hm : 0 < m) (k : Nat) : (m <<< k).log2 = m.log2 + k := by
  induction k with
  | zero => rfl
  | succ k ih =>
    have hpos : m <<< k ≠ 0 := by
      rw [Nat.shiftLeft_eq]
      positivity
    rw [Nat.shiftLeft_succ, Nat.log2_two_mul hpos, ih, Nat.add_assoc]

lemma apply_shiftLeft_mul (sign : Sign) (m k : Nat) (e : Int) :
    ((sign.apply m : Int) : Rat) * 2 ^ e =
      ((sign.apply (m <<< k : Nat) : Int) : Rat) * 2 ^ (e - k) := by
  have hpow : (2 : Rat) ^ e = 2 ^ k * 2 ^ (e - k) := by
    rw [← zpow_natCast, ← zpow_add₀ two_ne_zero]
    congr 1
    omega
  rw [hpow, Nat.shiftLeft_eq]
  cases sign <;> simp only [Sign.apply] <;> push_cast <;> ring

/-- Digits are appended as far as they are wanted. -/
lemma roundsTo_round (sign : Sign) {m : Nat} (hm : 0 < m) (e : Int) :
    RoundsTo ((sign.apply m : Int) * 2 ^ e) (UnpackedFloat.round Format.binary64 sign m e) := by
  rw [UnpackedFloat.round, targetExponent_eq]
  generalize ht : max ((m.log2 : Int) + e - 52) (-1074) = t
  obtain ⟨k, hk⟩ : ∃ k, (e - t).toNat = k := ⟨_, rfl⟩
  simp only [decreaseExponent, hk]
  have hlog := log2_shiftLeft hm k
  rw [apply_shiftLeft_mul sign m k e]
  refine roundsTo_roundWithAccuracy ?_ ?_
  · rw [Nat.shiftLeft_eq]
    positivity
  · rw [hlog]
    omega

lemma roundsTo_normalize (n e : Int) (sign : Sign) :
    RoundsTo (n * 2 ^ e) (UnpackedFloat.normalize Format.binary64 n e sign) := by
  unfold UnpackedFloat.normalize
  rcases lt_trichotomy n 0 with h | rfl | h
  · have hround := roundsTo_round .negative (m := (-n).toNat) (by omega) e
    have hn : Sign.negative.apply ((-n).toNat : Int) = n := by
      simp only [Sign.apply]
      omega
    rw [hn] at hround
    rwa [Int.compare_eq_lt.2 h]
  · rw [Int.cast_zero, zero_mul]
    exact roundsTo_zero sign
  · have hround := roundsTo_round .positive (m := n.toNat) (by omega) e
    have hn : Sign.positive.apply (n.toNat : Int) = n := by
      simp only [Sign.apply]
      omega
    rw [hn] at hround
    rwa [Int.compare_eq_gt.2 h]

/-! ### Sums and differences -/

/-- A double rounds a number; if the number is too large, the double is infinite. -/
inductive Rounds (s : Rat) (x : Float) : Prop
  | finite {r : Rat} (hr : Number.valueOfDouble? x = some r) (h : Faithful s r)
  | positive (hx : unpacked x = .infinity .positive) (h : 2 ^ 1023 < s)
  | negative (hx : unpacked x = .infinity .negative) (h : s < -2 ^ 1023)

lemma Rounds.of_roundsTo {u : UnpackedFloat} (h : RoundsTo s u) : Rounds s (packed u) := by
  obtain ⟨hcanonical, r, hr, hfaithful⟩ := h
  cases u with
  | infinity sign => cases hcanonical
  | notANumber => cases hcanonical
  | zero sign =>
    refine .finite ?_ hfaithful
    rw [valueOfDouble?_eq, unpacked_packed_zero, hr]
  | finite sign m e hm =>
    have hunpacked := unpacked_packed_finite (s := sign) hm hcanonical
    by_cases he : e ≤ 971
    · rw [if_pos he] at hunpacked
      refine .finite ?_ hfaithful
      rw [valueOfDouble?_eq, hunpacked, hr]
    · rw [if_neg he] at hunpacked
      have hm52 : (2 : Rat) ^ 52 ≤ m := by exact_mod_cast hcanonical.normal.resolve_right (by omega)
      have hlarge : (2 : Rat) ^ 1023 < m * 2 ^ e := by
        calc (2 : Rat) ^ 1023 = 2 ^ 52 * 2 ^ 971 := pow_add 2 52 971
          _ < (2 : Rat) ^ 52 * 2 ^ e := by
            gcongr
            rw [← zpow_natCast]
            exact zpow_lt_zpow_right₀ one_lt_two (by omega)
          _ ≤ (m : Rat) * 2 ^ e := by gcongr
      have hrep : Representable (2 ^ 1023) := representable_zpow (e := 1023) (by norm_num)
      obtain rfl := Option.some.inj hr
      cases sign with
      | positive =>
        refine .positive hunpacked (not_le.1 fun hs => ?_)
        have hle := hfaithful.upper _ hrep hs
        simp only [Sign.apply, Int.cast_natCast] at hle
        exact absurd hle (not_le.2 hlarge)
      | negative =>
        refine .negative hunpacked (not_le.1 fun hs => ?_)
        have hle := hfaithful.lower _ hrep.neg hs
        simp only [Sign.apply, Int.cast_neg, Int.cast_natCast, neg_mul, neg_le_neg_iff] at hle
        exact absurd hle (not_le.2 hlarge)

variable {x y : Float} {a b : Rat}

/-- Two doubles over their lower power. -/
lemma value_min (sign : Sign) (m : Nat) {e t : Int} (h : t ≤ e) :
    ((sign.apply m : Int) : Rat) * 2 ^ e =
      ((sign.apply ((decreaseExponent m e t).1 : Nat) : Int) : Rat) * 2 ^ t := by
  have ht : e - ((e - t).toNat : Nat) = t := by omega
  rw [apply_shiftLeft_mul sign m (e - t).toNat e, ht]
  rfl

lemma roundsTo_add {u v : UnpackedFloat} (hu : valueOf? u = some a) (hv : valueOf? v = some b)
    (hcu : IsCanonical u) (hcv : IsCanonical v) : RoundsTo (a + b) (add Format.binary64 u v) := by
  obtain ⟨s, rfl, rfl⟩ | ⟨s, m, e, hm, rfl, rfl⟩ := exists_of_valueOf? hu <;>
  obtain ⟨s', rfl, rfl⟩ | ⟨s', m', e', hm', rfl, rfl⟩ := exists_of_valueOf? hv
  · rw [add_zero]
    unfold add
    dsimp only
    split <;> exact roundsTo_zero _
  · rw [zero_add]
    exact ⟨hcv, _, hv, faithful_refl _⟩
  · rw [add_zero]
    exact ⟨hcu, _, hu, faithful_refl _⟩
  · rw [value_min s m (min_le_left e e'), value_min s' m' (min_le_right e e'), ← add_mul,
      ← Int.cast_add]
    exact roundsTo_normalize _ _ _

lemma roundsTo_sub {u v : UnpackedFloat} (hu : valueOf? u = some a) (hv : valueOf? v = some b)
    (hcu : IsCanonical u) (hcv : IsCanonical v) : RoundsTo (a - b) (sub Format.binary64 u v) := by
  obtain ⟨s, rfl, rfl⟩ | ⟨s, m, e, hm, rfl, rfl⟩ := exists_of_valueOf? hu <;>
  obtain ⟨s', rfl, rfl⟩ | ⟨s', m', e', hm', rfl, rfl⟩ := exists_of_valueOf? hv
  · rw [sub_zero]
    unfold sub
    dsimp only
    split <;> exact roundsTo_zero _
  · refine ⟨hcv, _, rfl, ?_⟩
    have hneg : (((-s').apply m' : Int) : Rat) = -(s'.apply m' : Int) := by
      cases s' with
      | positive => exact Int.cast_neg _
      | negative => exact (neg_neg (m' : Rat)).symm.trans (congrArg Neg.neg (Int.cast_neg _).symm)
    rw [hneg, zero_sub, neg_mul]
    exact faithful_refl _
  · rw [sub_zero]
    exact ⟨hcu, _, hu, faithful_refl _⟩
  · rw [value_min s m (min_le_left e e'), value_min s' m' (min_le_right e e'), ← sub_mul,
      ← Int.cast_sub]
    exact roundsTo_normalize _ _ _

lemma isCanonical_unpacked (h : Number.valueOfDouble? x = some a) : IsCanonical (unpacked x) := by
  rw [valueOfDouble?_eq] at h
  rcases exists_of_valueOf? h with ⟨s, hs, -⟩ | ⟨s, m, e, hm, hs, -⟩
  · rw [hs]
    trivial
  · rw [hs]
    exact (exists_of_finite hs).1

/-- The sum of two doubles is the rounded sum. -/
theorem rounds_add (hx : Number.valueOfDouble? x = some a) (hy : Number.valueOfDouble? y = some b) :
    Rounds (a + b) (x + y) :=
  .of_roundsTo (roundsTo_add (valueOfDouble?_eq x ▸ hx) (valueOfDouble?_eq y ▸ hy)
    (isCanonical_unpacked hx) (isCanonical_unpacked hy))

/-- The difference of two doubles is the rounded difference. -/
theorem rounds_sub (hx : Number.valueOfDouble? x = some a) (hy : Number.valueOfDouble? y = some b) :
    Rounds (a - b) (x - y) :=
  .of_roundsTo (roundsTo_sub (valueOfDouble?_eq x ▸ hx) (valueOfDouble?_eq y ▸ hy)
    (isCanonical_unpacked hx) (isCanonical_unpacked hy))

/-! ### Quotients -/

lemma Rounds.congr (h : Rounds s x) (hxy : unpacked y = unpacked x) : Rounds s y := by
  rcases h with ⟨hr, h⟩ | ⟨hx, h⟩ | ⟨hx, h⟩
  · refine .finite ?_ h
    rwa [valueOfDouble?_eq, hxy, ← valueOfDouble?_eq]
  · exact .positive (hxy.trans hx) h
  · exact .negative (hxy.trans hx) h

/-- The sign of a number that may be negated. -/
def signIf (negative : Bool) : Sign :=
  if negative then .negative else .positive

lemma toNat_packComponents (negative : Bool) (e : BitVec 11) (m : BitVec 52) :
    (packComponents Format.binary64 (signIf negative) e m).toNat =
      (if negative then pow2 63 else 0) + (e.toNat * pow2 52 + m.toNat) := by
  have he := e.isLt
  have hm := m.isLt
  unfold packComponents
  rw [BitVec.toNat_append, ← Nat.shiftLeft_add_eq_or_of_lt hm, BitVec.toNat_append,
    ← Nat.shiftLeft_add_eq_or_of_lt he]
  simp only [Nat.shiftLeft_eq, pow2, Nat.pow_eq]
  cases negative
  · simp [signIf, Sign.toBitVec]
  · simp [signIf, Sign.toBitVec]
    omega

lemma ofBits_eq (b : UInt64) :
    Float.ofBits b = packed (UnpackedFloat.unpack Format.binary64 b.toBitVec) := rfl

/-- A double that is put together from its bits. -/
lemma unpacked_ofBits (negative : Bool) {e m : Nat} (he : e < 2 ^ 11) (hm : m < 2 ^ 52) :
    unpacked (Float.ofBits (UInt64.ofNat ((if negative then pow2 63 else 0) + (e * pow2 52 + m)))) =
      unpacked (packed (UnpackedFloat.unpack Format.binary64
        (packComponents Format.binary64 (signIf negative) (BitVec.ofNat 11 e) (BitVec.ofNat 52 m)))) := by
  have hbits : (UInt64.ofNat ((if negative then pow2 63 else 0) + (e * pow2 52 + m))).toBitVec =
      packComponents Format.binary64 (signIf negative) (BitVec.ofNat 11 e) (BitVec.ofNat 52 m) := by
    refine BitVec.eq_of_toNat_eq ?_
    rw [toNat_packComponents, BitVec.toNat_ofNat, BitVec.toNat_ofNat, Nat.mod_eq_of_lt he,
      Nat.mod_eq_of_lt hm]
    rw [UInt64.toNat_toBitVec, UInt64.toNat_ofNat', Nat.mod_eq_of_lt]
    simp only [pow2, Nat.pow_eq]
    split <;> omega
  rw [ofBits_eq, hbits]

/-- A double that is put together from its parts. -/
lemma unpacked_ofParts {negative : Bool} {m : Nat} {k : Int} (h : Canonical m k) :
    unpacked (ofParts negative m k) =
      unpacked (packed (if h : m = 0 then .zero (signIf negative)
        else .finite (signIf negative) m k (Nat.pos_of_ne_zero h))) := by
  have hm := h.mantissa
  have hlow := h.lowest
  have h52 : pow2 52 = 2 ^ 52 := Nat.pow_eq
  unfold ofParts
  by_cases hinf : 971 < k
  · have hnormal := h.normal.resolve_right (by omega)
    have hones : 0x7ff0000000000000 = 2047 * pow2 52 + 0 := by rw [h52]; rfl
    rw [if_pos hinf, hones, unpacked_ofBits negative (by norm_num) (by norm_num), dif_neg (by omega),
      unpacked_packed_finite _ h, if_neg (by omega)]
    exact (congrArg _ (congrArg _ (unpack_infinite _))).trans (unpacked_packed_infinity _)
  · rw [if_neg hinf]
    by_cases hsub : m < pow2 52
    · obtain rfl : k = -1074 := h.normal.resolve_left (by omega)
      have hzero : m = 0 * pow2 52 + m := by rw [Nat.zero_mul, Nat.zero_add]
      have hfraction : (BitVec.ofNat 52 m).toNat = m := Nat.mod_eq_of_lt (by omega)
      rw [if_pos hsub]
      conv_lhs => rw [hzero, unpacked_ofBits negative (by norm_num) (by omega), unpack_subnormal]
      simp only [hfraction]
    · have he : (BitVec.ofNat 11 (k + 1075).toNat).toNat = (k + 1075).toNat :=
        Nat.mod_eq_of_lt (by omega)
      have hfraction : (BitVec.ofNat 52 (m - pow2 52)).toNat = m - 2 ^ 52 := by
        rw [BitVec.toNat_ofNat]
        omega
      have hm' : 2 ^ 52 + (m - 2 ^ 52) = m := by omega
      have hk : (((k + 1075).toNat : Nat) : Int) - 1075 = k := by omega
      rw [if_neg hsub, unpacked_ofBits negative (by omega) (by omega),
        unpack_normal _ _ (by omega) (by omega), dif_neg (by omega)]
      simp only [hfraction, he, hm', hk]

/-! ### The double nearest to a quotient -/

lemma roundDiv_spec (num : Nat) {den : Nat} (hden : 0 < den) :
    (∀ n, n * den ≤ num → n ≤ roundDiv num den) ∧ ∀ n, num ≤ n * den → roundDiv num den ≤ n := by
  have hr : num / den ≤ roundDiv num den ∧ roundDiv num den ≤ num / den + 1 ∧
      (num % den = 0 → roundDiv num den = num / den) := by
    unfold roundDiv
    dsimp only
    split
    · omega
    · split
      · omega
      · split <;> omega
  exact between_of_div hden hr.1 hr.2.1 hr.2.2

/-- A power of two as a quotient. -/
lemma pow2_cases (k : Int) :
    (0 ≤ k → (2 : Rat) ^ k = (pow2 k.toNat : Nat)) ∧
      (¬ 0 ≤ k → (2 : Rat) ^ k * (pow2 (-k).toNat : Nat) = 1) := by
  constructor
  · intro hk
    obtain ⟨n, rfl⟩ := Int.eq_ofNat_of_zero_le hk
    simp [pow2]
  · intro hk
    obtain ⟨n, hn⟩ := Int.eq_ofNat_of_zero_le (a := -k) (by omega)
    obtain rfl : k = -(n : Int) := by omega
    simp [pow2, zpow_neg]

/-- The double nearest to a quotient has the quotient's digits up to a power. -/
lemma roundDiv_scaled (num : Nat) {den : Nat} (hden : 0 < den) (k : Int) :
    let m := if 0 ≤ k then roundDiv num (den * pow2 k.toNat)
      else roundDiv (num * pow2 (-k).toNat) den
    (∀ n : Nat, n * 2 ^ k ≤ (num / den : Rat) → n ≤ m) ∧
      ∀ n : Nat, (num / den : Rat) ≤ n * 2 ^ k → m ≤ n := by
  intro m
  have hden' : (0 : Rat) < den := by exact_mod_cast hden
  by_cases hk : 0 ≤ k
  · have hm : m = roundDiv num (den * pow2 k.toNat) := if_pos hk
    have hspec := roundDiv_spec num (Nat.mul_pos hden (Nat.two_pow_pos k.toNat))
    have hscale : ∀ n : Nat, (n : Rat) * 2 ^ k * den = ((n * (den * pow2 k.toNat) : Nat) : Rat) := by
      intro n
      rw [(pow2_cases k).1 hk]
      push_cast
      ring
    rw [hm]
    constructor
    · intro n hn
      rw [le_div_iff₀ hden', hscale, Nat.cast_le] at hn
      exact hspec.1 n hn
    · intro n hn
      rw [div_le_iff₀ hden', hscale, Nat.cast_le] at hn
      exact hspec.2 n hn
  · have hm : m = roundDiv (num * pow2 (-k).toNat) den := if_neg hk
    have hspec := roundDiv_spec (num * pow2 (-k).toNat) hden
    have hpow : (0 : Rat) < (pow2 (-k).toNat : Nat) := by exact_mod_cast Nat.two_pow_pos _
    have hscale : ∀ n : Nat, (n : Rat) * 2 ^ k * den * (pow2 (-k).toNat : Nat) =
        ((n * den : Nat) : Rat) := by
      intro n
      have hone := (pow2_cases k).2 hk
      push_cast
      linear_combination (n * den : Rat) * hone
    rw [hm]
    constructor
    · intro n hn
      rw [le_div_iff₀ hden', ← mul_le_mul_iff_of_pos_right hpow, hscale] at hn
      exact hspec.1 n (by exact_mod_cast hn)
    · intro n hn
      rw [div_le_iff₀ hden', ← mul_le_mul_iff_of_pos_right hpow, hscale] at hn
      exact hspec.2 n (by exact_mod_cast hn)

lemma scaled_lt_iff {num den : Nat} (hden : 0 < den) (k : Int) :
    (if 0 ≤ k then num < den * pow2 k.toNat else num * pow2 (-k).toNat < den) ↔
      (num / den : Rat) < 2 ^ k := by
  have hden' : (0 : Rat) < den := by exact_mod_cast hden
  rw [div_lt_iff₀ hden']
  split
  · next hk =>
    rw [(pow2_cases k).1 hk, mul_comm, ← Nat.cast_mul, Nat.cast_lt]
  · next hk =>
    have hpow : (0 : Rat) < (pow2 (-k).toNat : Nat) := by exact_mod_cast Nat.two_pow_pos _
    have hone : (2 : Rat) ^ k * den * (pow2 (-k).toNat : Nat) = den := by
      linear_combination (den : Rat) * (pow2_cases k).2 hk
    rw [← mul_lt_mul_iff_of_pos_right hpow, hone, ← Nat.cast_mul, Nat.cast_lt]

/-- The power of the first digit of a quotient. -/
lemma exists_top {num den : Nat} (hnum : 0 < num) (hden : 0 < den) :
    let guess : Int := (num.log2 : Int) - den.log2
    let below := if 0 ≤ guess then num < den * pow2 guess.toNat else num * pow2 (-guess).toNat < den
    let top := if below then guess - 1 else guess
    (2 : Rat) ^ top ≤ num / den ∧ (num / den : Rat) < 2 ^ (top + 1) := by
  intro guess below top
  have hden' : (0 : Rat) < den := by exact_mod_cast hden
  have hlow : (2 : Rat) ^ (guess - 1) ≤ num / den := by
    have h1 : (2 : Rat) ^ num.log2 ≤ num := by exact_mod_cast Nat.log2_self_le hnum.ne'
    have h2 : (den : Rat) ≤ 2 ^ (den.log2 + 1) := by exact_mod_cast Nat.lt_log2_self.le
    rw [le_div_iff₀ hden']
    calc (2 : Rat) ^ (guess - 1) * den ≤ 2 ^ (guess - 1) * 2 ^ (den.log2 + 1) := by gcongr
      _ = 2 ^ num.log2 := by
        rw [← zpow_natCast, ← zpow_natCast, ← zpow_add₀ two_ne_zero]
        congr 1
        push_cast
        omega
      _ ≤ num := h1
  have hhigh : (num / den : Rat) < 2 ^ (guess + 1) := by
    have h1 : (num : Rat) < 2 ^ (num.log2 + 1) := by exact_mod_cast Nat.lt_log2_self
    have h2 : (2 : Rat) ^ den.log2 ≤ den := by exact_mod_cast Nat.log2_self_le hden.ne'
    rw [div_lt_iff₀ hden']
    calc (num : Rat) < 2 ^ (num.log2 + 1) := h1
      _ = 2 ^ (guess + 1) * 2 ^ den.log2 := by
        rw [← zpow_natCast, ← zpow_natCast, ← zpow_add₀ two_ne_zero]
        congr 1
        push_cast
        omega
      _ ≤ 2 ^ (guess + 1) * den := by gcongr
  by_cases hbelow : below
  · have htop : top = guess - 1 := if_pos hbelow
    rw [htop, sub_add_cancel]
    exact ⟨hlow, (scaled_lt_iff hden guess).1 hbelow⟩
  · have htop : top = guess := if_neg hbelow
    rw [htop]
    exact ⟨not_lt.1 fun h => hbelow ((scaled_lt_iff hden guess).2 h), hhigh⟩

/-- A number that may be negated. -/
def negateIf (negative : Bool) (q : Rat) : Rat :=
  if negative then -q else q

lemma rounds_ofParts {negative : Bool} {m : Nat} {k : Int} (hm : m < 2 ^ 53) (hk : -1074 ≤ k)
    (hnormal : 2 ^ 52 ≤ m ∨ k = -1074) (h : Faithful s (m * 2 ^ k)) :
    Rounds (negateIf negative s) (ofParts negative m k) := by
  have hcanonical := isCanonical_of_mantissa (signIf negative) hm hk hnormal
  refine Rounds.congr (.of_roundsTo ⟨hcanonical.1, _, hcanonical.2, ?_⟩)
    (unpacked_ofParts ⟨hm, hk, hnormal⟩)
  cases negative with
  | false => simpa [signIf, negateIf, Sign.apply] using h
  | true => simpa [signIf, negateIf, Sign.apply] using h.neg

/-- The double nearest to a quotient is the rounded quotient. -/
theorem rounds_ofRatio (negative : Bool) (num : Nat) {den : Nat} (hden : 0 < den) :
    Rounds (negateIf negative (num / den)) (ofRatio negative num den) := by
  unfold ofRatio
  by_cases hnum : num = 0
  · rw [if_pos (by simpa using hnum), hnum]
    refine rounds_ofParts (by norm_num) le_rfl (.inr rfl) ?_
    simpa using faithful_refl 0
  · rw [if_neg (by simpa using hnum)]
    obtain ⟨htop, htop'⟩ := exists_top (Nat.pos_of_ne_zero hnum) hden
    dsimp only at htop htop' ⊢
    generalize (if (if 0 ≤ (num.log2 : Int) - den.log2 then
        num < den * pow2 ((num.log2 : Int) - den.log2).toNat
      else num * pow2 (-((num.log2 : Int) - den.log2)).toNat < den)
      then (num.log2 : Int) - den.log2 - 1 else (num.log2 : Int) - den.log2) = top at htop htop' ⊢
    generalize hk : max (top - 52) (-1074) = k
    have hround := roundDiv_scaled num hden k
    dsimp only at hround
    generalize (if 0 ≤ k then roundDiv num (den * pow2 k.toNat)
      else roundDiv (num * pow2 (-k).toNat) den) = m at hround ⊢
    have hnormal : k = -1074 ∨ (2 : Rat) ^ 52 * 2 ^ k ≤ num / den := by
      by_cases hlowest : k = -1074
      · exact .inl hlowest
      · refine .inr (le_trans (le_of_eq ?_) htop)
        rw [← zpow_natCast, ← zpow_add₀ two_ne_zero]
        congr 1
        push_cast
        omega
    have hmantissa : m ≤ 2 ^ 53 := by
      refine hround.2 _ (htop'.le.trans ?_)
      rw [Nat.cast_pow, Nat.cast_ofNat, ← zpow_natCast, ← zpow_add₀ two_ne_zero]
      exact zpow_le_zpow_right₀ one_le_two (by omega)
    have hfaithful : Faithful (num / den) (m * 2 ^ k) :=
      faithful_of_floor (by positivity) hnormal hround.1 hround.2
    have hnormal' : 2 ^ 52 ≤ m ∨ k = -1074 :=
      hnormal.symm.imp_left fun h => hround.1 _ (by exact_mod_cast h)
    split
    · next hcarry =>
      obtain rfl : m = 2 ^ 53 := by simpa [pow2] using hcarry
      refine rounds_ofParts (by norm_num [pow2]) (by omega) (.inl (by norm_num [pow2])) ?_
      have hvalue : ((pow2 52 : Nat) : Rat) * 2 ^ (k + 1) = ((2 ^ 53 : Nat) : Rat) * 2 ^ k := by
        rw [zpow_add_one₀ two_ne_zero]
        norm_num [pow2]
        ring
      rwa [hvalue]
    · next hcarry =>
      have hne : m ≠ 2 ^ 53 := by simpa [pow2] using hcarry
      exact rounds_ofParts (by omega) (by omega) hnormal' hfaithful

end Double
end UmlDraw
