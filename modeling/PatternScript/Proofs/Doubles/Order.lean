import PatternScript.Proofs.Doubles.Extremes

/-!
# The order of rounded results

Rounding keeps the order of differences and of quotients, also where some of them are too large
for a double: a result becomes infinite beyond one limit, and what stays finite is not beyond it.
Where the exact results are equal, so are the rounded ones, but for the signs.
-/
namespace PatternScript

open Float.Model Float.Model.UnpackedFloat

namespace Unpacked

variable {u v : UnpackedFloat} {s : Sign} {a : ℚ} {t : Int} {m k : Nat} {e : Int}

/-- Halfway between the greatest double and the next one that there is no room for. -/
def overflow : ℚ := 2 ^ (1024 : Int) - 2 ^ (970 : Int)

theorem two_pow_971 : (2 : ℚ) ^ (971 : Int) = 2 * 2 ^ (970 : Int) :=
  zpow_one_add₀ two_ne_zero 970

theorem Canonical.magnitude_le (h : Canonical m e) :
    (m * 2 ^ e : ℚ) ≤ 2 ^ (1024 : Int) - 2 ^ (971 : Int) := by
  have hm : (m : ℚ) ≤ 2 ^ 53 - 1 := by
    have hlt : (m : ℚ) + 1 ≤ 2 ^ 53 := by exact_mod_cast h.short
    linarith
  have he : (2 : ℚ) ^ e ≤ 2 ^ (971 : Int) := zpow_le_zpow_right₀ one_le_two h.greatest
  calc (m * 2 ^ e : ℚ) ≤ (2 ^ 53 - 1) * 2 ^ (971 : Int) :=
        mul_le_mul hm he (by positivity) (by norm_num)
    _ = 2 ^ (1024 : Int) - 2 ^ (971 : Int) := by
        rw [sub_mul, one_mul, ← zpow_natCast, ← zpow_add₀ two_ne_zero]
        rfl

theorem abs_value_le (hu : IsCanonical u) : |value u| ≤ 2 ^ (1024 : Int) - 2 ^ (971 : Int) := by
  have hzero : |(0 : ℚ)| ≤ 2 ^ (1024 : Int) - 2 ^ (971 : Int) := by
    rw [abs_zero, sub_nonneg]
    exact zpow_le_zpow_right₀ one_le_two (by decide)
  rcases u with _ | _ | _ | ⟨s, m, e, hm⟩
  · exact hzero
  · exact hzero
  · exact hzero
  · rw [value, Number.abs_signValue_mul, abs_of_pos (magnitude_pos hm e)]
    exact hu.magnitude_le

theorem abs_value_lt_overflow (hu : IsCanonical u) : |value u| < overflow :=
  (abs_value_le hu).trans_lt
    (sub_lt_sub_left (zpow_lt_zpow_right₀ one_lt_two (by decide)) _)

theorem IsRounded.overflow_le (h : IsRounded u s a t k)
    (hlarge : (2 : ℚ) ^ (1024 : Int) ≤ k * 2 ^ t) : overflow ≤ a := by
  have hpos : 0 < 2 ^ 53 - 1 := by decide
  have hclosest := h.closest (v := .finite .positive (2 ^ 53 - 1) 971 hpos)
    ⟨by decide, by decide, by decide, .inl (by decide)⟩
  have hvalue : value (.finite .positive (2 ^ 53 - 1) 971 hpos) =
      2 ^ (1024 : Int) - 2 * 2 ^ (970 : Int) := by
    rw [value_positive, Nat.cast_sub Nat.one_le_two_pow, Nat.cast_pow, Nat.cast_one, sub_mul,
      one_mul, Nat.cast_ofNat, ← zpow_natCast, ← zpow_add₀ two_ne_zero, ← two_pow_971]
    rfl
  have hunit : (0 : ℚ) < 2 ^ (970 : Int) := by positivity
  rw [hvalue] at hclosest
  rw [overflow]
  generalize (2 : ℚ) ^ (1024 : Int) = top at *
  generalize (2 : ℚ) ^ (970 : Int) = unit at *
  by_contra hlt
  rw [abs_of_pos (by linarith)] at hclosest
  rcases abs_cases (top - 2 * unit - a) with ⟨heq, -⟩ | ⟨heq, -⟩ <;> linarith

theorem IsRounded.le_overflow (h : IsRounded u s a t k)
    (hsmall : (k * 2 ^ t : ℚ) ≤ 2 ^ (1024 : Int) - 2 ^ (971 : Int)) : a ≤ overflow := by
  have hunit : (0 : ℚ) < 2 ^ (970 : Int) := by positivity
  have ht : t ≤ 971 := by
    by_contra hgt
    have hfull := h.scale.fills.resolve_left (by omega)
    rw [add_comm, zpow_add₀ two_ne_zero, zpow_ofNat] at hfull
    have hnear := h.abs_sub_le (2 ^ 52)
    rw [Int.cast_pow, Int.cast_ofNat] at hnear
    rw [abs_of_nonpos (by linarith : (2 : ℚ) ^ 52 * 2 ^ t - a ≤ 0)] at hnear
    have hlarge : (2 : ℚ) ^ (1024 : Int) ≤ 2 ^ 52 * 2 ^ t := by
      rw [← zpow_natCast, ← zpow_add₀ two_ne_zero]
      exact zpow_le_zpow_right₀ one_le_two (by push_cast; omega)
    have hlow := (abs_le.1 hnear).1
    rw [two_pow_971] at hsmall
    generalize (2 : ℚ) ^ (1024 : Int) = top at *
    generalize (2 : ℚ) ^ (970 : Int) = unit at *
    linarith
  have hnext := h.abs_sub_le (2 ^ (1024 - t).toNat)
  have hexponent : ((1024 - t).toNat : Int) + t = 1024 := by omega
  have htop : (((2 ^ (1024 - t).toNat : Int) : ℚ) * 2 ^ t) = 2 ^ (1024 : Int) := by
    rw [Int.cast_pow, Int.cast_ofNat, ← zpow_natCast, ← zpow_add₀ two_ne_zero, hexponent]
  rw [htop] at hnext
  rw [two_pow_971] at hsmall
  rw [overflow]
  generalize (2 : ℚ) ^ (1024 : Int) = top at *
  generalize (2 : ℚ) ^ (970 : Int) = unit at *
  by_contra hgt
  rw [abs_of_neg (by linarith : (k * 2 ^ t : ℚ) - a < 0)] at hnext
  rcases abs_cases (top - a) with ⟨heq, -⟩ | ⟨heq, -⟩ <;> linarith

theorem eq_of_value_eq (hu : Finite u) (hv : Finite v) (hne : value u ≠ 0)
    (heq : value u = value v) : u = v := by
  rcases hu with s | ⟨s, m, e, hm, hc⟩
  · exact absurd rfl hne
  rcases hv with s' | ⟨s', n, f, hn, hc'⟩
  · exact absurd heq hne
  have hpos := magnitude_pos hm e
  have hpos' := magnitude_pos hn f
  have hsign : s = s' := by
    rcases s with _ | _ <;> rcases s' with _ | _ <;>
      simp only [value_negative, value_positive] at heq <;> first | rfl | linarith
  subst hsign
  have hmagnitude : (m * 2 ^ e : ℚ) = n * 2 ^ f := by
    rcases s with _ | _ <;> simp only [value_negative, value_positive] at heq <;> linarith
  have hcompare := compare_magnitude hc hc'
  rw [compare_eq_iff_eq.2 hmagnitude, Ordering.then_eq_eq, compare_eq_iff_eq,
    compare_eq_iff_eq] at hcompare
  rw [UnpackedFloat.finite.injEq]
  exact ⟨rfl, hcompare.2, hcompare.1⟩

theorem round_negative (m : Nat) (e : Int) : UnpackedFloat.round Format.binary64 .negative m e =
    (UnpackedFloat.round Format.binary64 .positive m e).neg := by
  unfold UnpackedFloat.round roundWithAccuracy
  dsimp only
  split_ifs <;> rfl

theorem unpacked_neg_neg (u : UnpackedFloat) : u.neg.neg = u := by
  rcases u with (_ | _) | _ | (_ | _) | ⟨_ | _, m, e, hm⟩ <;> rfl

theorem normalize_neg {n : Int} (hn : n ≠ 0) (e : Int) :
    UnpackedFloat.normalize Format.binary64 (-n) e .positive =
      (UnpackedFloat.normalize Format.binary64 n e .positive).neg := by
  rw [UnpackedFloat.normalize, UnpackedFloat.normalize]
  rcases Int.lt_or_gt_of_ne hn with hneg | hpos
  · rw [Int.compare_eq_gt.2 (by omega : -n > 0), Int.compare_eq_lt.2 hneg]
    dsimp only
    rw [round_negative, unpacked_neg_neg]
  · rw [Int.compare_eq_lt.2 (by omega : -n < 0), Int.compare_eq_gt.2 hpos, neg_neg]
    exact round_negative _ _

theorem isCanonical_neg (hu : IsCanonical u) : IsCanonical u.neg := by
  cases u <;> exact hu

theorem IsRounded.neg (h : IsRounded u s a t k) : IsRounded u.neg (-s) a t k where
  scale := h.scale
  near := h.near
  form := by
    rcases h.form with ⟨hk, rfl⟩ | ⟨M, f, hM, rfl, hform⟩
    · exact .inl ⟨hk, rfl⟩
    · exact .inr ⟨M, f, hM, rfl, hform⟩

theorem IsRounded.unpack_pack_neg (h : IsRounded u s a t k) :
    (Float.Model.pack u.neg).unpack = (Float.Model.pack u).unpack.neg := by
  rcases h.canonical_or_infinity with ⟨hu, -, -⟩ | ⟨hinfinity, hlarge⟩
  · rw [unpack_pack hu, unpack_pack (isCanonical_neg hu)]
  · rcases h.neg.canonical_or_infinity with ⟨hu, -, hvalue⟩ | ⟨hinfinity', -⟩
    · have hsize := abs_value_le hu
      have hunit : (0 : ℚ) < 2 ^ (971 : Int) := by positivity
      have hpos : (0 : ℚ) ≤ k * 2 ^ t := mul_nonneg k.cast_nonneg (zpow_nonneg two_pos.le t)
      rw [hvalue, Number.abs_signValue_mul, abs_of_nonneg hpos] at hsize
      generalize (2 : ℚ) ^ (1024 : Int) = top at *
      generalize (2 : ℚ) ^ (971 : Int) = unit at *
      linarith
    · rw [hinfinity, hinfinity']
      rfl

theorem sub_swap (hu : Finite u) (hv : Finite v) (hne : value u ≠ value v) :
    UnpackedFloat.sub Format.binary64 v u = (UnpackedFloat.sub Format.binary64 u v).neg := by
  rcases hu with s | ⟨s, m, e, hm, hc⟩ <;> rcases hv with s' | ⟨s', n, f, hn, hc'⟩
  · exact absurd rfl hne
  · cases s' <;> rfl
  · rfl
  · have hinteger : s.apply (decreaseExponent m e (min e f)).1 -
        s'.apply (decreaseExponent n f (min e f)).1 ≠ 0 := by
      intro heq
      refine hne ?_
      rw [value, value, ← Number.apply_decreaseExponent s m (min_le_left e f),
        ← Number.apply_decreaseExponent s' n (min_le_right e f), Int.sub_eq_zero.1 heq]
    rw [UnpackedFloat.sub, UnpackedFloat.sub]
    dsimp only
    rw [min_comm f e, ← normalize_neg hinteger, neg_sub]

end Unpacked

namespace Number

open Unpacked

variable {x y z : Float} {u v : UnpackedFloat} {p q k : ℚ} {s : Sign}

theorem RoundsTo.abs_le_overflow (h : RoundsTo u q)
    (hfinite : (Float.Model.pack u).unpack.isFinite = true) : |q| ≤ overflow := by
  cases h with
  | exact hu _ hvalue =>
    rw [← hvalue]
    exact (abs_value_lt_overflow hu).le
  | rounded s a t k ha hq h =>
    rw [hq, abs_signValue_mul, abs_of_nonneg ha]
    rcases h.canonical_or_infinity with ⟨hu, -, hvalue⟩ | ⟨hinfinity, -⟩
    · refine h.le_overflow ?_
      have hle := abs_value_le hu
      rwa [hvalue, abs_signValue_mul, abs_of_nonneg (by positivity)] at hle
    · rw [hinfinity] at hfinite
      cases hfinite

theorem RoundsTo.overflow_le (h : RoundsTo u q)
    (hinfinity : (Float.Model.pack u).unpack = .infinity s) : overflow ≤ signValue s * q := by
  cases h with
  | exact hu hfinite _ =>
    rw [unpack_pack hu] at hinfinity
    rw [hinfinity] at hfinite
    cases hfinite
  | rounded s' a t k ha hq h =>
    rcases h.canonical_or_infinity with ⟨hu, hfinite, -⟩ | ⟨hinfinity', hlarge⟩
    · rw [unpack_pack hu] at hinfinity
      rw [hinfinity] at hfinite
      cases hfinite
    · cases hinfinity.symm.trans hinfinity'
      rw [hq, ← mul_assoc, signValue_mul_signValue, one_mul]
      exact h.overflow_le hlarge

theorem RoundsTo.eq_of_eq (h : RoundsTo u q) (hy : y.isFinite = true) (heq : value y = q) :
    (Float.ofModel (Float.Model.pack u)).isFinite = true ∧
      value (Float.ofModel (Float.Model.pack u)) = q := by
  rcases h.rounded_ofModel with hnear | ⟨s, hinfinity, -⟩
  · exact ⟨hnear.isFinite, hnear.eq_of_eq hy heq⟩
  · have hlarge := h.overflow_le hinfinity
    have hsize := (le_abs_self (signValue s * q)).trans_eq (abs_signValue_mul s q)
    have hlimit := abs_value_lt_overflow (isCanonical y)
    change |value y| < _ at hlimit
    rw [heq] at hlimit
    linarith

section Exact

variable {w : Float} (hx : x.isFinite = true) (hz : z.isFinite = true) (hw : w.isFinite = true)

include hx hz hw

theorem value_add_of_eq (h : value w = value x + value z) :
    (x + z).isFinite = true ∧ value (x + z) = value w := by
  obtain ⟨hfinite, hvalue⟩ := (roundsTo_add (finite_unpack hx) (finite_unpack hz)).eq_of_eq hw h
  exact ⟨hfinite, hvalue.trans h.symm⟩

theorem value_sub_of_eq (h : value w = value x - value z) :
    (x - z).isFinite = true ∧ value (x - z) = value w := by
  obtain ⟨hfinite, hvalue⟩ := (roundsTo_sub (finite_unpack hx) (finite_unpack hz)).eq_of_eq hw h
  exact ⟨hfinite, hvalue.trans h.symm⟩

theorem value_mul_of_eq (h : value w = value x * value z) :
    (x * z).isFinite = true ∧ value (x * z) = value w := by
  obtain ⟨hfinite, hvalue⟩ := (roundsTo_mul (finite_unpack hx) (finite_unpack hz)).eq_of_eq hw h
  exact ⟨hfinite, hvalue.trans h.symm⟩

end Exact

theorem value_sub_self (hx : x.isFinite = true) :
    (x - x).isFinite = true ∧ value (x - x) = 0 := by
  have h := value_sub_of_eq hx hx isFinite_zero (by rw [value_zero, sub_self])
  rwa [value_zero] at h

theorem value_sub_congr (hx : x.isFinite = true) (hy : y.isFinite = true) (hz : z.isFinite = true)
    (heq : value x = value y) :
    (x - z).isFinite = (y - z).isFinite ∧ value (x - z) = value (y - z) := by
  by_cases hzero : value x = 0
  · have hminus : (-z).isFinite = true := by rwa [isFinite_neg]
    obtain ⟨hfinite, hvalue⟩ := value_sub_of_eq hx hz hminus (by rw [value_neg, hzero, zero_sub])
    obtain ⟨hfinite', hvalue'⟩ := value_sub_of_eq hy hz hminus
      (by rw [value_neg, ← heq, hzero, zero_sub])
    exact ⟨hfinite.trans hfinite'.symm, hvalue.trans hvalue'.symm⟩
  · have hunpack := eq_of_value_eq (finite_unpack hx) (finite_unpack hy) hzero heq
    have hsub : x - z = y - z := congrArg
      (fun u => Float.ofModel (Float.Model.pack (UnpackedFloat.sub Format.binary64 u _))) hunpack
    exact ⟨congrArg Float.isFinite hsub, congrArg value hsub⟩

theorem RoundsTo.unpack_pack_neg (h : RoundsTo u q) :
    (Float.Model.pack u.neg).unpack = (Float.Model.pack u).unpack.neg := by
  cases h with
  | exact hu _ _ => rw [unpack_pack hu, unpack_pack (isCanonical_neg hu)]
  | rounded s a t k _ _ h => exact h.unpack_pack_neg

theorem value_sub_swap (hx : x.isFinite = true) (hy : y.isFinite = true) :
    (y - x).isFinite = (x - y).isFinite ∧ value (y - x) = -value (x - y) := by
  by_cases heq : value x = value y
  · have hzero : value 0.0 = value x - value y := by rw [value_zero, sub_eq_zero.2 heq]
    obtain ⟨hfinite, hvalue⟩ := value_sub_of_eq hx hy isFinite_zero hzero
    obtain ⟨hfinite', hvalue'⟩ := value_sub_of_eq hy hx isFinite_zero (by linarith [value_zero])
    exact ⟨hfinite'.trans hfinite.symm, by rw [hvalue, hvalue', value_zero, neg_zero]⟩
  · have hswap : (y - x).toModel.unpack = (x - y).toModel.unpack.neg := by
      change (Float.Model.pack (UnpackedFloat.sub Format.binary64 y.toModel.unpack
        x.toModel.unpack)).unpack = _
      rw [sub_swap (finite_unpack hx) (finite_unpack hy) heq]
      exact (roundsTo_sub (finite_unpack hx) (finite_unpack hy)).unpack_pack_neg
    constructor
    · change (y - x).toModel.unpack.isFinite = (x - y).toModel.unpack.isFinite
      rw [hswap]
      cases (x - y).toModel.unpack <;> rfl
    · rw [value, hswap, value_unpacked_neg]
      rfl

/-- No less than `k`, or infinite. -/
def AtLeast (x : Float) (k : ℚ) : Prop :=
  x.toModel.unpack = .infinity .positive ∨ x.isFinite = true ∧ k ≤ value x

def AtMost (x : Float) (k : ℚ) : Prop :=
  x.toModel.unpack = .infinity .negative ∨ x.isFinite = true ∧ value x ≤ k

theorem AtLeast.of_le (hx : x.isFinite = true) (h : x ≤ y) : AtLeast y (value x) := by
  by_cases hy : y.isFinite = true
  · exact .inr ⟨hy, (le_iff hx hy).1 h⟩
  · left
    rw [le_def] at h
    have hx' := finite_unpack hx
    change ¬ y.toModel.unpack.isFinite = true at hy
    generalize x.toModel.unpack = u at *
    generalize y.toModel.unpack = v at *
    rcases v with (_ | _) | _ | _ | _
    · rcases hx' with _ | ⟨_ | _, _⟩ <;> cases h
    · rfl
    · rcases hx' with _ | ⟨_ | _, _⟩ <;> cases h
    · exact absurd rfl hy
    · exact absurd rfl hy

theorem AtMost.of_le (hx : x.isFinite = true) (h : y ≤ x) : AtMost y (value x) := by
  by_cases hy : y.isFinite = true
  · exact .inr ⟨hy, (le_iff hy hx).1 h⟩
  · left
    rw [le_def] at h
    have hx' := finite_unpack hx
    change ¬ y.toModel.unpack.isFinite = true at hy
    generalize x.toModel.unpack = u at *
    generalize y.toModel.unpack = v at *
    rcases v with (_ | _) | _ | _ | _
    · rfl
    · rcases hx' with _ | ⟨_ | _, _⟩ <;> cases h
    · cases h
    · exact absurd rfl hy
    · exact absurd rfl hy

theorem AtLeast.not_below (h : AtLeast x k) (hy : y.isFinite = true) (hle : value y ≤ k) :
    ¬ x < y := by
  rcases h with hinfinity | ⟨hx, hk⟩
  · rw [lt_def, hinfinity]
    have hy' := finite_unpack hy
    generalize y.toModel.unpack = v at *
    rcases hy' with _ | ⟨_ | _, _⟩ <;> nofun
  · rw [lt_iff hx hy]
    exact not_lt.2 (hle.trans hk)

theorem AtMost.not_above (h : AtMost x k) (hy : y.isFinite = true) (hle : k ≤ value y) :
    ¬ y < x := by
  rcases h with hinfinity | ⟨hx, hk⟩
  · rw [lt_def, hinfinity]
    have hy' := finite_unpack hy
    generalize y.toModel.unpack = v at *
    rcases hy' with _ | ⟨_ | _, _⟩ <;> nofun
  · rw [lt_iff hy hx]
    exact not_lt.2 (hk.trans hle)

theorem RoundsTo.atLeast (h : RoundsTo u p) (h' : RoundsTo v q) (hlt : p < q)
    (hfinite : (Float.ofModel (Float.Model.pack u)).isFinite = true) :
    AtLeast (.ofModel (Float.Model.pack v)) (value (.ofModel (Float.Model.pack u))) := by
  have hnear := h.rounded_ofModel.nearest_of_isFinite hfinite
  rcases h'.rounded_ofModel with hnear' | ⟨s, hinfinity, -⟩
  · exact .inr ⟨hnear'.isFinite, hnear.mono hnear' hlt⟩
  · cases s with
    | positive => exact .inl hinfinity
    | negative =>
      have hlimit := neg_le_of_abs_le (h.abs_le_overflow hfinite)
      have hlarge : overflow ≤ -1 * q := h'.overflow_le hinfinity
      linarith

theorem unpack_sub_infinity (hz : z.isFinite = true) :
    (y.toModel.unpack = .infinity .positive → (y - z).toModel.unpack = .infinity .positive) ∧
      (y.toModel.unpack = .infinity .negative → (z - y).toModel.unpack = .infinity .positive) := by
  have hz' := finite_unpack hz
  change (_ → (Float.Model.pack (UnpackedFloat.sub Format.binary64 y.toModel.unpack
      z.toModel.unpack)).unpack = _) ∧ (_ → (Float.Model.pack (UnpackedFloat.sub Format.binary64
        z.toModel.unpack y.toModel.unpack)).unpack = _)
  generalize z.toModel.unpack = v at *
  constructor <;> intro hinfinity <;> rw [hinfinity] <;> rcases hz' with _ | _ <;>
    exact unpack_pack trivial

theorem isNaN_of_infinity (h : x.toModel.unpack = .infinity s) : x.isNaN = false := by
  change x.toModel.unpack.isNaN = false
  rw [h]
  rfl

theorem AtMost.greatest (h : AtMost y k) (hx : x.isFinite = true) : greatest x y = x ∨
    greatest x y = y ∧ y.isFinite = true ∧ value x < value y ∧ value y ≤ k := by
  rcases h with hinfinity | ⟨hy, hle⟩
  · have hlt : ¬ x < y := AtMost.not_above (.inl hinfinity) hx le_rfl
    left
    rw [Number.greatest, isNaN_of_isFinite hx, isNaN_of_infinity hinfinity,
      if_neg Bool.false_ne_true, if_neg Bool.false_ne_true, if_neg hlt]
  · rw [Number.greatest, isNaN_of_isFinite hx, isNaN_of_isFinite hy, if_neg Bool.false_ne_true,
      if_neg Bool.false_ne_true]
    split_ifs with hlt
    · exact .inr ⟨rfl, hy, (lt_iff hx hy).1 hlt, hle⟩
    · exact .inl rfl

theorem AtLeast.least (h : AtLeast y k) (hx : x.isFinite = true) : least x y = x ∨
    least x y = y ∧ y.isFinite = true ∧ value y < value x ∧ k ≤ value y := by
  rcases h with hinfinity | ⟨hy, hle⟩
  · have hlt : ¬ y < x := AtLeast.not_below (.inl hinfinity) hx le_rfl
    left
    rw [Number.least, isNaN_of_isFinite hx, isNaN_of_infinity hinfinity,
      if_neg Bool.false_ne_true, if_neg Bool.false_ne_true, if_neg hlt]
  · rw [Number.least, isNaN_of_isFinite hx, isNaN_of_isFinite hy, if_neg Bool.false_ne_true,
      if_neg Bool.false_ne_true]
    split_ifs with hlt
    · exact .inr ⟨rfl, hy, (lt_iff hy hx).1 hlt, hle⟩
    · exact .inl rfl

theorem AtLeast.sub (h : AtLeast y (value x)) (hx : x.isFinite = true) (hz : z.isFinite = true)
    (hd : (x - z).isFinite = true) : AtLeast (y - z) (value (x - z)) := by
  rcases h with hinfinity | ⟨hy, hle⟩
  · exact .inl ((unpack_sub_infinity hz).1 hinfinity)
  rcases hle.eq_or_lt with heq | hlt
  · obtain ⟨hfinite, hvalue⟩ := value_sub_congr hx hy hz heq
    exact .inr ⟨hfinite.symm.trans hd, hvalue.le⟩
  · exact (roundsTo_sub (finite_unpack hx) (finite_unpack hz)).atLeast
      (roundsTo_sub (finite_unpack hy) (finite_unpack hz)) (sub_lt_sub_right hlt _) hd

theorem AtMost.sub (h : AtMost y (value x)) (hx : x.isFinite = true) (hz : z.isFinite = true)
    (hd : (x - z).isFinite = true) : AtLeast (z - y) (-value (x - z)) := by
  obtain ⟨hfinite, hvalue⟩ := value_sub_swap hx hz
  rcases h with hinfinity | ⟨hy, hle⟩
  · exact .inl ((unpack_sub_infinity hz).2 hinfinity)
  rcases hle.eq_or_lt with heq | hlt
  · obtain ⟨hfinite', hvalue'⟩ := value_sub_swap hy hz
    obtain ⟨hfinite'', hvalue''⟩ := value_sub_congr hy hx hz heq
    exact .inr ⟨hfinite'.trans (hfinite''.trans hd), by rw [hvalue', hvalue'']⟩
  · rw [← hvalue]
    exact (roundsTo_sub (finite_unpack hz) (finite_unpack hx)).atLeast
      (roundsTo_sub (finite_unpack hz) (finite_unpack hy)) (sub_lt_sub_left hlt _)
      (hfinite.trans hd)

theorem unpack_div_infinity (hx : x.isFinite = true)
    (hy : y.toModel.unpack = .infinity .positive) :
    (0 < value x → (y / x).toModel.unpack = .infinity .positive) ∧
      (value x < 0 → (y / x).toModel.unpack = .infinity .negative) := by
  have hx' := finite_unpack hx
  change (0 < Unpacked.value x.toModel.unpack → (Float.Model.pack (UnpackedFloat.div
      Format.binary64 y.toModel.unpack x.toModel.unpack)).unpack = _) ∧
    (Unpacked.value x.toModel.unpack < 0 → (Float.Model.pack (UnpackedFloat.div
      Format.binary64 y.toModel.unpack x.toModel.unpack)).unpack = _)
  rw [hy]
  generalize x.toModel.unpack = v at *
  rcases hx' with _ | ⟨_ | _, m, e, hm, _⟩
  · exact ⟨fun h => absurd h (lt_irrefl 0), fun h => absurd h (lt_irrefl 0)⟩
  · have hneg := neg_neg_of_pos (magnitude_pos hm e)
    rw [value_negative]
    exact ⟨fun h => absurd h hneg.not_gt, fun _ => unpack_pack trivial⟩
  · have hpos := magnitude_pos hm e
    rw [value_positive]
    exact ⟨fun _ => unpack_pack trivial, fun h => absurd h hpos.not_gt⟩

theorem AtLeast.div (h : AtLeast y (value z * value x)) (hx : x.isFinite = true)
    (hz : z.isFinite = true) (hlow : 0 ≤ value z) (hhigh : value z ≤ 1) :
    (0 < value x → AtLeast (y / x) (value z)) ∧ (value x < 0 → AtMost (y / x) (value z)) := by
  rcases h with hinfinity | ⟨hy, hle⟩
  · obtain ⟨hpos, hneg⟩ := unpack_div_infinity hx hinfinity
    exact ⟨fun h => .inl (hpos h), fun h => .inl (hneg h)⟩
  have hlarge : (1 : ℚ) < 2 ^ (1023 : Int) := one_lt_zpow₀ one_lt_two (by decide)
  constructor
  · intro hpos
    have hquotient := (le_div_iff₀ hpos).2 hle
    rcases rounded_div hy hx hpos.ne' with hnear | ⟨s, hinfinity, hlimit⟩
    · exact .inr ⟨hnear.isFinite, hnear.le_of_le hz hquotient⟩
    · cases s with
      | positive => exact .inl hinfinity
      | negative =>
        rw [signValue, neg_one_mul] at hlimit
        generalize (2 : ℚ) ^ (1023 : Int) = limit at *
        linarith
  · intro hneg
    have hquotient := (div_le_iff_of_neg hneg).2 hle
    rcases rounded_div hy hx hneg.ne with hnear | ⟨s, hinfinity, hlimit⟩
    · exact .inr ⟨hnear.isFinite, hnear.ge_of_ge hz hquotient⟩
    · cases s with
      | negative => exact .inl hinfinity
      | positive =>
        rw [signValue, one_mul] at hlimit
        generalize (2 : ℚ) ^ (1023 : Int) = limit at *
        linarith

end Number

end PatternScript
