import Mathlib.Tactic.FieldSimp
import PatternScript.Proofs.Doubles.Values

/-!
# Rounding to doubles

The result of an operation is the exact result, rounded: cut to as many bits as there is room
for, and moved to the nearer neighbour with the help of two bits that tell about what was cut
off. So no double is nearer to the exact result, and a result that is a double is exact.
-/
namespace PatternScript

open Float.Model Float.Model.UnpackedFloat

namespace Unpacked

/-- The two bits after a mantissa tell how far `v` is beyond it. -/
def Describes (em : ExtendedMantissa) (v : ℚ) : Prop :=
  ∃ rest : ℚ, v = em.mantissa + (if em.roundBit then 1 / 2 else 0) + rest ∧
    (0 ≤ rest ∧ rest < 1 / 2) ∧ (em.stickyBit = true ↔ rest ≠ 0)

section Mantissas

variable {em : ExtendedMantissa} {v : ℚ} {m : Nat} {acc : Accuracy}

theorem Describes.between (h : Describes em v) : em.mantissa ≤ v ∧ v < em.mantissa + 1 := by
  obtain ⟨rest, hv, hrest, -⟩ := h
  split_ifs at hv <;> constructor <;> linarith

theorem Describes.shiftRightOne (h : Describes em v) : Describes em.shiftRightOne (v / 2) := by
  obtain ⟨rest, hv, hrest, hsticky⟩ := h
  refine ⟨((if em.roundBit then 1 / 2 else 0) + rest) / 2, ?_, ?_, ?_⟩
  · have hhalf : (em.mantissa : ℚ) = 2 * (em.mantissa / 2 : Nat) + (em.mantissa % 2 : Nat) := by
      exact_mod_cast (Nat.div_add_mod em.mantissa 2).symm
    rw [hv, ExtendedMantissa.shiftRightOne, hhalf]
    rcases Nat.mod_two_eq_zero_or_one em.mantissa with hmod | hmod <;> rw [hmod] <;> simp <;> ring
  · split_ifs <;> constructor <;> linarith
  · rw [ExtendedMantissa.shiftRightOne]
    cases hround : em.roundBit with
    | false => simp [hsticky]
    | true =>
      have : (1 / 2 + rest) / 2 ≠ 0 := by
        have := hrest.1
        positivity
      simpa using this

theorem Describes.shiftRight (h : Describes em v) (k : Nat) : Describes (em >>> k) (v / 2 ^ k) := by
  induction k with
  | zero => simpa [HShiftRight.hShiftRight, Nat.repeat] using h
  | succ k ih =>
    have hstep : em >>> (k + 1) = (em >>> k).shiftRightOne := rfl
    rw [hstep, pow_succ, ← div_div]
    exact ih.shiftRightOne

theorem Describes.abs_rounded_sub_le (h : Describes em v) : |em.roundedMantissa - v| ≤ 1 / 2 := by
  obtain ⟨m, round, sticky⟩ := em
  obtain ⟨rest, hv, hrest, hsticky⟩ := h
  have hodd : ((m % 2 : Nat) : ℚ) ≤ 1 := by
    exact_mod_cast Nat.le_of_lt_succ (Nat.mod_lt m two_pos)
  have hodd' : (0 : ℚ) ≤ (m % 2 : Nat) := Nat.cast_nonneg _
  dsimp only at hv hsticky
  rw [abs_le]
  cases round <;> cases sticky <;>
    simp only [ExtendedMantissa.roundedMantissa, ExtendedMantissa.accuracy,
      Accuracy.roundToNearestEven, Nat.cast_add, Nat.cast_one] <;>
    simp at hv hsticky <;> constructor <;> linarith

def Tells (acc : Accuracy) (m : Nat) (v : ℚ) : Prop :=
  match acc with
  | .exact => v = m
  | .inexact o => (m < v ∧ v < m + 1) ∧ compare v (m + 1 / 2) = o

theorem Tells.describes (h : Tells acc m v) :
    Describes (ExtendedMantissa.ofMantissaAndAccuracy m acc) v := by
  rcases acc with _ | o
  · have hv : v = m := h
    exact ⟨0, by simpa [ExtendedMantissa.ofMantissaAndAccuracy] using hv, by norm_num,
      by simp [ExtendedMantissa.ofMantissaAndAccuracy]⟩
  obtain ⟨hv, hcompare⟩ := h
  rcases o with _ | _ | _
  · have hlt := compare_lt_iff_lt.1 hcompare
    refine ⟨v - m, ?_, ⟨by linarith, by linarith⟩, ?_⟩
    · simp [ExtendedMantissa.ofMantissaAndAccuracy]
    · simpa [ExtendedMantissa.ofMantissaAndAccuracy] using (sub_pos.2 hv.1).ne'
  · have heq := compare_eq_iff_eq.1 hcompare
    refine ⟨0, ?_, by norm_num, ?_⟩
    · simpa [ExtendedMantissa.ofMantissaAndAccuracy] using heq
    · simp [ExtendedMantissa.ofMantissaAndAccuracy]
  · have hgt := compare_gt_iff_gt.1 hcompare
    refine ⟨v - (m + 1 / 2), ?_, ⟨by linarith, by linarith⟩, ?_⟩
    · simp [ExtendedMantissa.ofMantissaAndAccuracy]
    · simpa [ExtendedMantissa.ofMantissaAndAccuracy] using (sub_pos.2 hgt).ne'

end Mantissas

section Rounding

variable {a : ℚ} {m k : Nat} {e t : Int} {s : Sign} {acc : Accuracy} {u : UnpackedFloat}

structure Scale (a : ℚ) (t : Int) : Prop where
  least : -1074 ≤ t
  fits : a < 2 ^ (t + 53)
  fills : t = -1074 ∨ 2 ^ (t + 52) ≤ a

theorem targetExponent_eq (m : Nat) (e : Int) :
    Format.binary64.targetExponent (totalExponent m e) =
      max ((m.log2 : Int) + 1 + e - 53) (-1074) :=
  rfl

theorem scale_target (hle : e ≤ Format.binary64.targetExponent (totalExponent m e))
    (hm : m * 2 ^ e ≤ a) (ha : a < (m + 1) * 2 ^ e) :
    Scale a (Format.binary64.targetExponent (totalExponent m e)) := by
  rw [targetExponent_eq] at hle ⊢
  refine ⟨le_max_right _ _, ?_, ?_⟩
  · have hlog : (m + 1 : ℚ) ≤ 2 ^ (m.log2 + 1) := by
      exact_mod_cast Nat.succ_le_of_lt Nat.lt_log2_self
    calc a < (m + 1) * 2 ^ e := ha
      _ ≤ 2 ^ (m.log2 + 1) * 2 ^ e := by gcongr
      _ = 2 ^ ((m.log2 : Int) + 1 + e) := by
        rw [zpow_add₀ two_ne_zero]
        norm_cast
      _ ≤ _ := zpow_le_zpow_right₀ one_le_two (by omega)
  · rcases le_or_gt ((m.log2 : Int) + 1 + e - 53) (-1074) with hleast | hgreater
    · exact Or.inl (max_eq_right hleast)
    · rw [max_eq_left hgreater.le] at hle ⊢
      have hpos : m ≠ 0 := by
        rintro rfl
        simp at hle
        omega
      right
      calc (2 : ℚ) ^ ((m.log2 : Int) + 1 + e - 53 + 52) = 2 ^ m.log2 * 2 ^ e := by
            rw [show (m.log2 : Int) + 1 + e - 53 + 52 = m.log2 + e by ring,
              zpow_add₀ two_ne_zero, zpow_natCast]
        _ ≤ m * 2 ^ e := by
          gcongr
          exact_mod_cast Nat.log2_self_le hpos
        _ ≤ a := hm

/-- The double is the whole multiple of a unit that is nearest to the magnitude `a`. -/
structure IsRounded (u : UnpackedFloat) (s : Sign) (a : ℚ) (t : Int) (k : Nat) : Prop where
  scale : Scale a t
  near : |k - a / 2 ^ t| ≤ 1 / 2
  form : (k = 0 ∧ u = .zero s) ∨ ∃ M f, ∃ hM : 0 < M, u = .finite s M f hM ∧
    (M * 2 ^ f : ℚ) = k * 2 ^ t ∧ M < 2 ^ 53 ∧ -1074 ≤ f ∧ (2 ^ 52 ≤ M ∨ f = -1074)

theorem shiftToTargetExponent_rounded (hk : k ≤ 2 ^ 53) (ht : -1074 ≤ t) :
    shiftToTargetExponent Format.binary64 k t .exact =
      if k = 2 ^ 53 then (⟨2 ^ 52, false, false⟩, t + 1) else (⟨k, false, false⟩, t) := by
  rw [shiftToTargetExponent, targetExponent_eq, shiftToExponent]
  split_ifs with heq
  · subst heq
    rw [Nat.log2_two_pow, show (max (((53 : Nat) : Int) + 1 + t - 53) (-1074) - t).toNat = 1 by
      omega]
    rfl
  · have hlog : k.log2 ≤ 52 := by
      rcases Nat.eq_zero_or_pos k with rfl | hpos
      · decide
      · exact Nat.le_of_lt_succ ((Nat.log2_lt (Nat.ne_of_gt hpos)).2 (by omega))
    rw [show (max ((k.log2 : Int) + 1 + t - 53) (-1074) - t).toNat = 0 by omega]
    exact Prod.ext rfl (Int.add_zero t)

theorem isRounded_roundWithAccuracy (s : Sign)
    (hle : e ≤ Format.binary64.targetExponent (totalExponent m e)) (h : Tells acc m (a / 2 ^ e)) :
    ∃ t k, IsRounded (roundWithAccuracy Format.binary64 s m e acc) s a t k := by
  have hunit : (0 : ℚ) < 2 ^ e := by positivity
  have hbetween := h.describes.between
  have hmantissa : (ExtendedMantissa.ofMantissaAndAccuracy m acc).mantissa = m := by
    rcases acc with _ | _ | _ | _ <;> rfl
  rw [hmantissa, le_div_iff₀ hunit, div_lt_iff₀ hunit] at hbetween
  have hscale := scale_target hle hbetween.1 hbetween.2
  rw [roundWithAccuracy, shiftToTargetExponent, shiftToExponent]
  generalize Format.binary64.targetExponent (totalExponent m e) = t at *
  obtain ⟨shift, hshift⟩ := Int.eq_ofNat_of_zero_le (Int.sub_nonneg.2 hle)
  have ht : e + shift = t := by omega
  rw [hshift, Int.toNat_natCast, ht]
  have hmoved := h.describes.shiftRight shift
  rw [div_div, ← zpow_natCast, ← zpow_add₀ two_ne_zero, ht] at hmoved
  generalize ExtendedMantissa.ofMantissaAndAccuracy m acc >>> shift = em at *
  have hnear := hmoved.abs_rounded_sub_le
  have hfits : em.roundedMantissa ≤ 2 ^ 53 := by
    have hlt : a / 2 ^ t < 2 ^ 53 := by
      rw [div_lt_iff₀ (by positivity), ← zpow_natCast, ← zpow_add₀ two_ne_zero, add_comm]
      exact hscale.fits
    have hle' : (em.roundedMantissa : ℚ) < (2 ^ 53 + 1 : Nat) := by
      push_cast
      linarith [(abs_le.1 hnear).2]
    exact Nat.le_of_lt_succ (by exact_mod_cast hle')
  have hfills : 2 ^ 52 ≤ em.roundedMantissa ∨ t = -1074 := by
    rcases hscale.fills with hleast | hfull
    · exact Or.inr hleast
    · left
      have hge : (2 : ℚ) ^ 52 ≤ a / 2 ^ t := by
        rwa [le_div_iff₀ (by positivity), ← zpow_natCast, ← zpow_add₀ two_ne_zero, add_comm]
      have hlt : ((2 ^ 52 - 1 : Nat) : ℚ) < em.roundedMantissa := by
        push_cast [Nat.cast_sub (Nat.one_le_two_pow (n := 52))]
        linarith [(abs_le.1 hnear).1]
      have : 2 ^ 52 - 1 < em.roundedMantissa := by exact_mod_cast hlt
      omega
  refine ⟨t, em.roundedMantissa, hscale, hnear, ?_⟩
  dsimp only
  rw [shiftToTargetExponent_rounded hfits hscale.least]
  have hleast := hscale.least
  by_cases hfull : em.roundedMantissa = 2 ^ 53
  · rw [if_pos hfull]
    refine Or.inr ⟨2 ^ 52, t + 1, by decide, rfl, ?_, by decide, by omega, Or.inl le_rfl⟩
    rw [hfull, zpow_add_one₀ two_ne_zero]
    push_cast
    ring
  · rw [if_neg hfull]
    by_cases hzero : em.roundedMantissa = 0
    · exact Or.inl ⟨hzero, dif_pos hzero⟩
    · exact Or.inr ⟨_, t, Nat.pos_of_ne_zero hzero, dif_neg hzero, rfl, by omega, hleast, hfills⟩

theorem log2_mul_pow (hm : 0 < m) (k : Nat) : (m * 2 ^ k).log2 = m.log2 + k := by
  induction k with
  | zero => rw [Nat.pow_zero, Nat.mul_one, Nat.add_zero]
  | succ k ih =>
    have hne : m * 2 ^ k ≠ 0 := Nat.ne_of_gt (Nat.mul_pos hm (Nat.two_pow_pos k))
    rw [Nat.pow_succ, ← Nat.mul_assoc, Nat.mul_comm _ 2, Nat.log2_two_mul hne, ih, Nat.add_assoc]

theorem isRounded_round (s : Sign) (hm : 0 < m) (e : Int) :
    ∃ t k, IsRounded (UnpackedFloat.round Format.binary64 s m e) s (m * 2 ^ e) t k := by
  have htarget := targetExponent_eq m e
  rw [UnpackedFloat.round]
  dsimp only [decreaseExponent]
  generalize hd : (e - Format.binary64.targetExponent (totalExponent m e)).toNat = d
  refine isRounded_roundWithAccuracy s ?_ ?_
  · rw [targetExponent_eq, Nat.shiftLeft_eq, log2_mul_pow hm]
    omega
  · change _ = ((m <<< d : Nat) : ℚ)
    rw [Nat.shiftLeft_eq, zpow_sub₀ two_ne_zero, zpow_natCast, Nat.cast_mul, Nat.cast_pow]
    field_simp
    norm_cast

theorem abs_sub_le_of_half {c : ℚ} {k : Nat} (h : |k - c| ≤ 1 / 2) (j : Int) :
    |k - c| ≤ |j - c| := by
  by_cases heq : j = k
  · rw [heq]
    rfl
  · have hone : (1 : ℚ) ≤ |(j : ℚ) - k| := by
      exact_mod_cast Int.one_le_abs (sub_ne_zero.2 heq)
    have htriangle := abs_sub_le (j : ℚ) c k
    rw [abs_sub_comm c] at htriangle
    linarith

theorem IsRounded.abs_sub_le (h : IsRounded u s a t k) (j : Int) :
    |k * 2 ^ t - a| ≤ |j * 2 ^ t - a| := by
  have hunit : (0 : ℚ) < 2 ^ t := by positivity
  have hscaled (c : ℚ) : |c * 2 ^ t - a| = |c - a / 2 ^ t| * 2 ^ t := by
    rw [← abs_of_pos hunit, ← abs_mul, abs_of_pos hunit, sub_mul, div_mul_cancel₀ _ hunit.ne']
  rw [hscaled, hscaled]
  exact mul_le_mul_of_nonneg_right (abs_sub_le_of_half h.near j) hunit.le

theorem value_eq_multiple {v : UnpackedFloat} {e : Int}
    (h : ∀ s m f hm, v = .finite s m f hm → e ≤ f) : ∃ j : Int, value v = j * 2 ^ e := by
  rcases v with _ | _ | _ | ⟨s, m, f, hm⟩
  · exact ⟨0, by simp [value]⟩
  · exact ⟨0, by simp [value]⟩
  · exact ⟨0, by simp [value]⟩
  · obtain ⟨d, hd⟩ := Int.eq_ofNat_of_zero_le (Int.sub_nonneg.2 (h s m f hm rfl))
    have hpow : (2 : ℚ) ^ f = 2 ^ d * 2 ^ e := by
      rw [← zpow_natCast, ← zpow_add₀ two_ne_zero, ← hd, sub_add_cancel]
    cases s with
    | negative => exact ⟨-(m * 2 ^ d), by rw [value, signValue, hpow]; push_cast; ring⟩
    | positive => exact ⟨m * 2 ^ d, by rw [value, signValue, hpow]; push_cast; ring⟩

theorem IsRounded.closest (h : IsRounded u s a t k) {v : UnpackedFloat} (hv : IsCanonical v) :
    |k * 2 ^ t - a| ≤ |value v - a| := by
  by_cases hmultiple : ∀ s m f hm, v = .finite s m f hm → t ≤ f
  · obtain ⟨j, hj⟩ := value_eq_multiple hmultiple
    rw [hj]
    exact h.abs_sub_le j
  · -- A double with a lesser exponent lies below the least number of 53 bits with this one.
    push Not at hmultiple
    obtain ⟨s', m, f, hm, rfl, hlt⟩ := hmultiple
    have hpos := magnitude_pos hm f
    have hfull := h.scale.fills.resolve_left (by have := hv.least; omega)
    have hbelow : (m * 2 ^ f : ℚ) < 2 ^ 52 * 2 ^ t := by
      calc (m * 2 ^ f : ℚ) < 2 ^ 53 * 2 ^ f := by gcongr; exact_mod_cast hv.short
        _ = 2 ^ 52 * 2 ^ (f + 1) := by rw [zpow_add_one₀ two_ne_zero]; ring
        _ ≤ 2 ^ 52 * 2 ^ t := by gcongr <;> norm_num; omega
    have hvalue : value (.finite s' m f hm) ≤ m * 2 ^ f := by
      cases s' <;> rw [value, signValue] <;> linarith
    have hedge : (2 : ℚ) ^ 52 * 2 ^ t ≤ a := by
      rwa [add_comm, zpow_add₀ two_ne_zero] at hfull
    have hnear := h.abs_sub_le (2 ^ 52)
    push_cast at hnear
    refine hnear.trans ?_
    rw [abs_of_nonpos (by linarith), abs_of_nonpos (by linarith)]
    linarith

theorem IsRounded.error (h : IsRounded u s a t k) :
    |k * 2 ^ t - a| ≤ max a (2 ^ (-1022 : Int)) / 2 ^ 53 := by
  have hunit : (0 : ℚ) < 2 ^ t := by positivity
  have hhalf : |k * 2 ^ t - a| ≤ 2 ^ (t + 52) / 2 ^ 53 := by
    have hscaled : k * 2 ^ t - a = (k - a / 2 ^ t) * 2 ^ t := by
      rw [sub_mul, div_mul_cancel₀ _ hunit.ne']
    rw [hscaled, abs_mul, abs_of_pos hunit, zpow_add₀ two_ne_zero]
    calc |k - a / 2 ^ t| * 2 ^ t ≤ 1 / 2 * 2 ^ t := by gcongr; exact h.near
      _ = _ := by norm_num; ring
  refine hhalf.trans ?_
  gcongr
  rcases h.scale.fills with hleast | hfull
  · rw [hleast]
    exact le_max_right _ _
  · exact hfull.trans (le_max_left _ _)

theorem unpack_pack_overflow {hm : 0 < m} (he : 971 < e) :
    (Float.Model.pack (.finite s m e hm)).unpack = .infinity s := by
  have hpack : UnpackedFloat.pack Format.binary64 (.finite s m e hm) =
      packedInfinity Format.binary64 s := by
    change (if 2 ^ 11 ≤ (e + 1023 + 52).toNat + 1 then _ else _) = _
    rw [if_pos (by omega)]
  change UnpackedFloat.unpack Format.binary64 (UnpackedFloat.pack _ _) = _
  rw [hpack]
  cases s <;> rfl

theorem IsRounded.canonical_or_infinity (h : IsRounded u s a t k) :
    (IsCanonical u ∧ u.isFinite = true ∧ value u = signValue s * (k * 2 ^ t)) ∨
      (Float.Model.pack u).unpack = .infinity s ∧ (2 : ℚ) ^ (1024 : Int) ≤ k * 2 ^ t := by
  rcases h.form with ⟨rfl, rfl⟩ | ⟨M, f, hM, rfl, heq, hshort, hleast, hfull⟩
  · refine Or.inl ⟨trivial, rfl, ?_⟩
    rw [value, Nat.cast_zero, zero_mul, mul_zero]
  · rcases le_or_gt f 971 with hle | hgt
    · exact Or.inl ⟨⟨hshort, hleast, hle, hfull⟩, rfl, by rw [value, heq]⟩
    · refine Or.inr ⟨unpack_pack_overflow hgt, ?_⟩
      have hM' : (2 ^ 52 : ℚ) ≤ M := by exact_mod_cast hfull.resolve_right (by omega)
      rw [← heq]
      calc (2 : ℚ) ^ (1024 : Int) = 2 ^ 52 * 2 ^ (972 : Int) := by
            rw [← zpow_natCast, ← zpow_add₀ two_ne_zero]
            rfl
        _ ≤ M * 2 ^ f := by gcongr <;> norm_num; omega

end Rounding

end Unpacked

namespace Number

open Unpacked

variable {x y : Float} {q : ℚ}

/-- No double is nearer to `q`. -/
structure Nearest (x : Float) (q : ℚ) : Prop where
  isFinite : x.isFinite = true
  closest : ∀ y : Float, y.isFinite = true → |value x - q| ≤ |value y - q|
  error : |value x - q| ≤ max |q| (2 ^ (-1022 : Int)) / 2 ^ 53

/-- The nearest double, or else infinity, if `q` is too far from zero. -/
def Rounded (x : Float) (q : ℚ) : Prop :=
  Nearest x q ∨ ∃ s, x.toModel.unpack = .infinity s ∧ 2 ^ (1023 : Int) ≤ signValue s * q

theorem signValue_mul_signValue (s : Sign) : signValue s * signValue s = 1 := by
  cases s <;> norm_num [signValue]

theorem abs_signValue_mul (s : Sign) (c : ℚ) : |signValue s * c| = |c| := by
  cases s <;> simp [signValue]

theorem value_of_sign {s : Sign} {v : UnpackedFloat} (hv : IsCanonical v) :
    ∃ w, IsCanonical w ∧ Unpacked.value w = signValue s * Unpacked.value v := by
  cases s with
  | positive => exact ⟨v, hv, by rw [signValue, one_mul]⟩
  | negative =>
    refine ⟨v.neg, ?_, ?_⟩
    · cases v <;> exact hv
    · rw [value_unpacked_neg, signValue, neg_one_mul]

theorem rounded_ofModel {u : UnpackedFloat} {s : Sign} {a : ℚ} {t : Int} {k : Nat} (ha : 0 ≤ a)
    (h : IsRounded u s a t k) :
    Rounded (.ofModel (Float.Model.pack u)) (signValue s * a) := by
  rcases h.canonical_or_infinity with ⟨hcanonical, hfinite, hvalue⟩ | ⟨hinfinity, hlarge⟩
  · rw [← unpack_pack hcanonical] at hfinite hvalue
    refine Or.inl ⟨hfinite, fun y _ => ?_, ?_⟩
    · obtain ⟨w, hw, hwy⟩ := value_of_sign (s := s) (isCanonical y)
      have hy : value y = signValue s * Unpacked.value w := by
        rw [hwy, ← mul_assoc, signValue_mul_signValue, one_mul]
        rfl
      rw [hy, value, hvalue, ← mul_sub, ← mul_sub, abs_signValue_mul, abs_signValue_mul]
      exact h.closest hw
    · rw [value, hvalue, ← mul_sub, abs_signValue_mul, abs_signValue_mul, abs_of_nonneg ha]
      exact h.error
  · refine Or.inr ⟨s, hinfinity, ?_⟩
    rw [← mul_assoc, signValue_mul_signValue, one_mul]
    have hdouble : (2 : ℚ) ^ (1024 : Int) = 2 * 2 ^ (1023 : Int) := zpow_one_add₀ two_ne_zero 1023
    have herror := (abs_le.1 h.error).2
    by_contra hsmall
    have hmax : max a (2 ^ (-1022 : Int)) ≤ 2 ^ (1023 : Int) :=
      max_le (le_of_not_ge hsmall) (zpow_le_zpow_right₀ one_le_two (by decide))
    have hpos : (0 : ℚ) < 2 ^ (1023 : Int) := by positivity
    rw [hdouble] at hlarge
    generalize (2 : ℚ) ^ (1023 : Int) = limit at *
    linarith

end Number

end PatternScript
