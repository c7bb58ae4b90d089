import PatternScript.Proofs.Doubles.Whole

/-!
# Square roots of doubles

The root of a mantissa is cut to a whole number, and the rest tells on which side of the next
half the root lies. That is all that rounding asks for, so some rational number near the root
is rounded the same way, and the square of the result is near the double.
-/
namespace PatternScript

open Float.Model Float.Model.UnpackedFloat

namespace Unpacked

section Cores

variable {m n : Nat} {e : Int}

def stand (n : Nat) : ℚ :=
  n.sqrt + (if n - n.sqrt * n.sqrt = 0 then 0
    else if n - n.sqrt * n.sqrt ≤ n.sqrt then 1 / 4 else 3 / 4)

theorem tells_stand (n : Nat) :
    Tells (if n - n.sqrt * n.sqrt = 0 then .exact
      else .inexact (if n - n.sqrt * n.sqrt ≤ n.sqrt then .lt else .gt)) n.sqrt (stand n) := by
  rw [stand]
  split_ifs with hexact hlow
  · exact add_zero _
  · exact ⟨⟨by linarith, by linarith⟩, compare_lt_iff_lt.2 (by linarith)⟩
  · exact ⟨⟨by linarith, by linarith⟩, compare_gt_iff_gt.2 (by linarith)⟩

theorem abs_stand_sq_sub_le (h : 2 ≤ n.sqrt) : |stand n ^ 2 - n| ≤ n.sqrt := by
  have hle : n.sqrt * n.sqrt ≤ n := Nat.sqrt_le n
  have hge : n ≤ n.sqrt * n.sqrt + n.sqrt + n.sqrt := Nat.sqrt_le_add n
  obtain ⟨rest, hrest⟩ := Nat.exists_eq_add_of_le hle
  have hsplit : n - n.sqrt * n.sqrt = rest := by omega
  have hroot : (2 : ℚ) ≤ n.sqrt := by exact_mod_cast h
  have hn : (n : ℚ) = n.sqrt * n.sqrt + rest := by exact_mod_cast hrest
  rw [stand, hsplit, hn, abs_le]
  split_ifs with hexact hlow
  · subst hexact
    constructor <;> push_cast <;> linarith
  · have h₁ : (1 : ℚ) ≤ rest := by exact_mod_cast Nat.pos_of_ne_zero hexact
    have h₂ : (rest : ℚ) ≤ n.sqrt := by exact_mod_cast hlow
    constructor <;> linarith
  · have h₁ : (n.sqrt + 1 : ℚ) ≤ rest := by exact_mod_cast Nat.succ_le_of_lt (not_le.1 hlow)
    have h₂ : (rest : ℚ) ≤ n.sqrt + n.sqrt := by
      exact_mod_cast (show rest ≤ n.sqrt + n.sqrt by omega)
    constructor <;> linarith

theorem sqrtCore_eq (hm : 0 < m) (he : -1074 ≤ e) : ∃ T : Int, ∃ d : Nat, e = 2 * T + d ∧
    -600 ≤ T ∧ 2 ^ 52 ≤ (m <<< d).sqrt ∧ sqrtCore Format.binary64 m e =
      ((m <<< d).sqrt, T, if m <<< d - (m <<< d).sqrt * (m <<< d).sqrt = 0 then .exact
        else .inexact (if m <<< d - (m <<< d).sqrt * (m <<< d).sqrt ≤ (m <<< d).sqrt then .lt
          else .gt)) := by
  have htotal : totalExponent m e = m.log2 + 1 + e := rfl
  have htarget (n : Int) : Format.binary64.targetExponent n = max (n - 53) (-1074) := rfl
  have hdiv (n : Int) : n.ediv 2 = n / 2 := rfl
  rw [sqrtCore, htarget, htotal, hdiv, hdiv]
  generalize hT : min (e / 2) (max (((m.log2 : Int) + 1 + e + 1) / 2 - 53) (-1074)) = T
  have hhalf : 2 * T ≤ e := by omega
  obtain ⟨d, hd⟩ := Int.eq_ofNat_of_zero_le (Int.sub_nonneg.2 hhalf)
  rw [hd, Int.toNat_natCast]
  refine ⟨T, d, by omega, by omega, ?_, rfl⟩
  have hlog : 104 ≤ (m <<< d).log2 := by
    rw [Nat.shiftLeft_eq, log2_mul_pow hm]
    omega
  have hne : m <<< d ≠ 0 := by
    rw [Nat.shiftLeft_eq]
    exact Nat.mul_ne_zero hm.ne' (Nat.two_pow_pos d).ne'
  rw [Nat.le_sqrt]
  exact (Nat.le_log2 hne).1 hlog

theorem rounded_unpacked_sqrt (hm : 0 < m) (he : -1074 ≤ e) :
    ∃ a : ℚ, Number.Rounded (.ofModel (Float.Model.pack
        (UnpackedFloat.sqrt Format.binary64 (.finite .positive m e hm)))) a ∧
      (2 : ℚ) ^ (-1022 : Int) ≤ a ∧ |a ^ 2 - (m * 2 ^ e : ℚ)| ≤ (m * 2 ^ e : ℚ) / 2 ^ 52 := by
  obtain ⟨T, d, hsplit, hleast, hroot, hcore⟩ := sqrtCore_eq hm he
  have hunit : (0 : ℚ) < 2 ^ T := by positivity
  have hvalue : (m * 2 ^ e : ℚ) = (m <<< d : Nat) * (2 ^ T) ^ 2 := by
    rw [Nat.shiftLeft_eq, hsplit, zpow_add₀ two_ne_zero, zpow_natCast, two_mul,
      zpow_add₀ two_ne_zero]
    push_cast
    ring
  have hstand : ((m <<< d).sqrt : ℚ) ≤ stand (m <<< d) := by
    rw [stand]
    split_ifs <;> linarith
  have hroot' : (2 ^ 52 : ℚ) ≤ (m <<< d).sqrt := by exact_mod_cast hroot
  have htells := tells_stand (m <<< d)
  rw [← mul_div_cancel_right₀ (stand (m <<< d)) hunit.ne'] at htells
  have hle : T ≤ Format.binary64.targetExponent (totalExponent (m <<< d).sqrt T) := by
    have hlog : 52 ≤ (m <<< d).sqrt.log2 := (Nat.le_log2 (by omega)).2 hroot
    rw [targetExponent_eq]
    omega
  obtain ⟨t, k, h⟩ := isRounded_roundWithAccuracy .positive hle htells
  refine ⟨stand (m <<< d) * 2 ^ T, ?_, ?_, ?_⟩
  · rw [UnpackedFloat.sqrt, hcore]
    have hpos : 0 ≤ stand (m <<< d) * 2 ^ T := mul_nonneg (by linarith) hunit.le
    have hrounded := Number.rounded_ofModel hpos h
    rwa [signValue, one_mul] at hrounded
  · calc (2 : ℚ) ^ (-1022 : Int) ≤ 2 ^ T := zpow_le_zpow_right₀ one_le_two (by omega)
      _ ≤ stand (m <<< d) * 2 ^ T := le_mul_of_one_le_left hunit.le (by linarith)
  · have hnear := abs_stand_sq_sub_le (n := m <<< d) (by omega)
    have hsquare : ((m <<< d).sqrt * (m <<< d).sqrt : ℚ) ≤ (m <<< d : Nat) := by
      exact_mod_cast Nat.sqrt_le (m <<< d)
    have hfull : ((m <<< d).sqrt * 2 ^ 52 : ℚ) ≤ (m <<< d : Nat) :=
      (mul_le_mul_of_nonneg_left hroot' (by linarith)).trans hsquare
    rw [hvalue, mul_pow, ← sub_mul, abs_mul, abs_of_pos (pow_pos hunit 2), mul_div_right_comm]
    refine mul_le_mul_of_nonneg_right (hnear.trans ?_) (by positivity)
    rwa [le_div_iff₀ (by positivity)]

end Cores

end Unpacked

namespace Number

open Unpacked

variable {x : Float} {a q r : ℚ}

theorem abs_sq_sub_le (ha : 0 < a) (hr : |r - a| ≤ a / 2 ^ 53) (hq : |a ^ 2 - q| ≤ q / 2 ^ 52) :
    0 ≤ r ∧ |r ^ 2 - q| ≤ q / 2 ^ 50 := by
  have hr' := abs_le.1 hr
  have hsum : |r + a| ≤ 3 * a := by
    rw [abs_le]
    constructor <;> linarith
  have hsquares : |r ^ 2 - a ^ 2| ≤ 3 * a ^ 2 / 2 ^ 53 := by
    rw [sq_sub_sq, mul_comm, abs_mul]
    calc |r - a| * |r + a| ≤ a / 2 ^ 53 * (3 * a) :=
          mul_le_mul hr hsum (abs_nonneg _) (by positivity)
      _ = 3 * a ^ 2 / 2 ^ 53 := by ring
  have hq' := abs_le.1 hq
  have htriangle := abs_sub_le (r ^ 2) (a ^ 2) q
  have hpos : 0 ≤ a ^ 2 := sq_nonneg a
  refine ⟨by linarith, ?_⟩
  linarith

theorem isFinite_and_value_sqrt (hx : x.isFinite = true) (hpos : 0 ≤ value x)
    (hle : value x ≤ 2 ^ 200) : x.sqrt.isFinite = true ∧ 0 ≤ value x.sqrt ∧
      |value x.sqrt ^ 2 - value x| ≤ value x / 2 ^ 50 := by
  have hsqrt : x.sqrt = .ofModel (Float.Model.pack
    (UnpackedFloat.sqrt Format.binary64 x.toModel.unpack)) := rfl
  have hvalue : value x = Unpacked.value x.toModel.unpack := rfl
  have hfinite := finite_unpack hx
  rw [hsqrt, hvalue]
  rw [hvalue] at hpos hle
  generalize x.toModel.unpack = u at *
  rcases hfinite with s | ⟨s, m, e, hm, hc⟩
  · have hpack : (Float.Model.pack (.zero s)).unpack = .zero s := unpack_pack trivial
    rw [UnpackedFloat.sqrt, value, hpack, Unpacked.value]
    refine ⟨?_, le_rfl, by norm_num⟩
    change (Float.Model.pack (.zero s)).unpack.isFinite = true
    rw [hpack]
    rfl
  · have hmagnitude := magnitude_pos hm e
    cases s with
    | negative =>
      rw [Unpacked.value, signValue] at hpos
      linarith
    | positive =>
      obtain ⟨a, hrounded, hleast, hsquare⟩ := rounded_unpacked_sqrt hm hc.least
      rw [Unpacked.value, signValue, one_mul] at hle ⊢
      have ha : 0 < a := lt_of_lt_of_le (by positivity) hleast
      have hlimit : |a| ≤ 2 ^ 200 := by
        rw [abs_of_pos ha]
        by_contra hgt
        have hlarge : (2 : ℚ) ^ 200 * 2 ^ 200 < a ^ 2 := by
          rw [sq]
          exact mul_lt_mul'' (not_le.1 hgt) (not_le.1 hgt) (by positivity) (by positivity)
        linarith [(abs_le.1 hsquare).2]
      have hnear := hrounded.nearest (abs_lt_limit hlimit)
      have herror := hnear.error
      rw [abs_of_pos ha, max_eq_left hleast] at herror
      exact ⟨hnear.isFinite, abs_sq_sub_le ha herror hsquare⟩

end Number

end PatternScript
