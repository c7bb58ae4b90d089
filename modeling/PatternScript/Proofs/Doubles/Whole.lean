import PatternScript.Proofs.Doubles.Operations
import PatternScript.Proofs.Words

/-!
# Whole numbers as doubles

A whole number of at most 53 bits is a double, also when it is moved by a power of two, and
every word is converted exactly.
-/
namespace PatternScript

open Float.Model Float.Model.UnpackedFloat

namespace Unpacked

theorem exists_canonical {m : Nat} {e : Int} (hm : 0 < m) (hm' : m < 2 ^ 53) (he : -1074 ≤ e)
    (he' : e ≤ 971) : ∃ M f, 0 < M ∧ Canonical M f ∧ (M * 2 ^ f : ℚ) = m * 2 ^ e := by
  have hlog : m.log2 < 53 := (Nat.log2_lt hm.ne').2 hm'
  obtain ⟨d, hd⟩ : ∃ d : Nat, (d : Int) = min (52 - (m.log2 : Int)) (e + 1074) :=
    ⟨(min (52 - (m.log2 : Int)) (e + 1074)).toNat, Int.toNat_of_nonneg (by omega)⟩
  have hlog' := log2_mul_pow hm d
  have hpos : 0 < m * 2 ^ d := Nat.mul_pos hm (Nat.two_pow_pos d)
  refine ⟨m * 2 ^ d, e - d, hpos, ⟨?_, by omega, by omega, ?_⟩, ?_⟩
  · exact (Nat.log2_lt hpos.ne').1 (by omega)
  · by_cases hfull : (d : Int) = 52 - m.log2
    · exact Or.inl ((Nat.le_log2 hpos.ne').1 (by omega))
    · exact Or.inr (by omega)
  · rw [zpow_sub₀ two_ne_zero, zpow_natCast]
    push_cast
    field_simp

end Unpacked

namespace Number

open Unpacked

variable {x y : Float} {n : Int}

theorem exists_value_natCast {m : Nat} {e : Int} (hm : m < 2 ^ 53) (he : -1074 ≤ e)
    (he' : e ≤ 971) : ∃ x : Float, x.isFinite = true ∧ value x = m * 2 ^ e := by
  rcases Nat.eq_zero_or_pos m with rfl | hpos
  · have hpack : (Float.Model.pack (.zero .positive)).unpack = .zero .positive :=
      unpack_pack trivial
    refine ⟨.ofModel (Float.Model.pack (.zero .positive)), rfl, ?_⟩
    rw [value, hpack, Unpacked.value, Nat.cast_zero, zero_mul]
  · obtain ⟨M, f, hM, hc, heq⟩ := exists_canonical hpos hm he he'
    have hpack := unpack_pack_finite (s := .positive) hM hc
    refine ⟨.ofModel (Float.Model.pack (.finite .positive M f hM)), ?_, ?_⟩
    · change (Float.Model.pack (.finite .positive M f hM)).unpack.isFinite = true
      rw [hpack]
      rfl
    · rw [value, hpack, Unpacked.value, signValue, one_mul, heq]

theorem exists_value {e : Int} (hn : |n| < 2 ^ 53) (he : -1074 ≤ e) (he' : e ≤ 971) :
    ∃ x : Float, x.isFinite = true ∧ value x = n * 2 ^ e := by
  have hnat : n.natAbs < 2 ^ 53 := by
    rw [Int.abs_eq_natAbs] at hn
    omega
  obtain ⟨x, hx, hvalue⟩ := exists_value_natCast hnat he he'
  rcases Int.natAbs_eq n with heq | heq
  · exact ⟨x, hx, by rw [hvalue, heq]; simp⟩
  · refine ⟨-x, by rw [isFinite_neg, hx], ?_⟩
    rw [value_neg, hvalue, heq]
    simp

theorem exists_value_intCast (hn : |n| < 2 ^ 53) :
    ∃ x : Float, x.isFinite = true ∧ value x = n := by
  obtain ⟨x, hx, hvalue⟩ := exists_value (e := 0) hn (by decide) (by decide)
  exact ⟨x, hx, by rw [hvalue, zpow_zero, mul_one]⟩

theorem Nearest.eq_intCast (h : Nearest x n) (hn : |n| < 2 ^ 53) : value x = n := by
  obtain ⟨y, hy, heq⟩ := exists_value_intCast hn
  exact h.eq_of_eq hy heq

theorem abs_lt_limit {q : ℚ} (h : |q| ≤ 2 ^ 200) : |q| < 2 ^ (1023 : Int) :=
  h.trans_lt (by rw [← zpow_natCast]; exact zpow_lt_zpow_right₀ one_lt_two (by decide))

theorem abs_intCast_lt_limit (hn : |n| < 2 ^ 53) : |(n : ℚ)| < 2 ^ (1023 : Int) := by
  refine abs_lt_limit ?_
  have hle : |(n : ℚ)| ≤ 2 ^ 53 := by exact_mod_cast hn.le
  exact hle.trans (pow_le_pow_right₀ one_le_two (by decide))

section OfNat

variable {m : Nat}

theorem isFinite_and_value_one :
    (Float.ofBits 0x3FF0000000000000).isFinite = true ∧
      value (Float.ofBits 0x3FF0000000000000) = 1 := by
  have hunpack : (Float.ofBits 0x3FF0000000000000).toModel.unpack =
      .finite .positive (2 ^ 52) (-52) (by decide) := rfl
  refine ⟨rfl, ?_⟩
  rw [value, hunpack, Unpacked.value, signValue, one_mul]
  norm_num

theorem isFinite_and_value_ofNat (hm : m < 2 ^ 53) :
    (Float.ofNat m).isFinite = true ∧ value (Float.ofNat m) = m := by
  have habs : |(m : Int)| < 2 ^ 53 := by
    rw [Nat.abs_cast]
    exact_mod_cast hm
  have hlimit := abs_intCast_lt_limit habs
  have hword : m.toUInt64.toNat = m := Nat.mod_eq_of_lt (Nat.lt_trans hm (by decide))
  -- A number without a decimal exponent is converted as a word and multiplied by one.
  have hproduct : Float.ofNat m = m.toUInt64.toFloat * Float.ofBits 0x3FF0000000000000 := by
    change Float.ofScientific m false 0 = _
    rw [Float.ofScientific, dif_pos ⟨hm, by decide⟩]
    rfl
  have hconverted : Rounded m.toUInt64.toFloat (m : Int) := by
    have h := (roundsTo_normalize m 0).rounded_ofModel
    rw [zpow_zero, mul_one] at h
    change Rounded (.ofModel (Float.Model.pack
      (normalize Format.binary64 (m.toUInt64.toNat : Int) 0 .positive))) _
    rwa [hword]
  have hnear := hconverted.nearest hlimit
  have hexact := hnear.eq_intCast habs
  obtain ⟨hone, hone'⟩ := isFinite_and_value_one
  have hresult := rounded_mul hnear.isFinite hone
  rw [hexact, hone', mul_one, ← hproduct] at hresult
  have hnear' := hresult.nearest hlimit
  exact ⟨hnear'.isFinite, by rw [hnear'.eq_intCast habs, Int.cast_natCast]⟩

theorem isFinite_and_value_ofInt (hn : |n| < 2 ^ 53) :
    (Float.ofInt n).isFinite = true ∧ value (Float.ofInt n) = n := by
  cases n with
  | ofNat m => exact isFinite_and_value_ofNat (by simpa using hn)
  | negSucc m =>
    have hm : m + 1 < 2 ^ 53 := by
      rw [Int.abs_eq_natAbs, Int.natAbs_negSucc] at hn
      omega
    obtain ⟨hfinite, hvalue⟩ := isFinite_and_value_ofNat hm
    have hneg : Float.ofInt (.negSucc m) = -Float.ofNat (m + 1) := rfl
    rw [hneg]
    refine ⟨by rw [isFinite_neg, hfinite], ?_⟩
    rw [value_neg, hvalue, Int.cast_negSucc]

end OfNat

section OfInt32

variable (n : Int32)

theorem abs_toInt_lt : |n.toInt| < 2 ^ 53 := by
  have := Words.bounds n
  rw [abs_lt]
  omega

@[simp]
theorem isFinite_ofInt32 : (ofInt32 n).isFinite = true :=
  (isFinite_and_value_ofInt (abs_toInt_lt n)).1

@[simp]
theorem value_ofInt32 : value (ofInt32 n) = n.toInt :=
  (isFinite_and_value_ofInt (abs_toInt_lt n)).2

theorem abs_value_ofInt32_le : |value (ofInt32 n)| ≤ 2 ^ 31 := by
  have hn := Words.bounds n
  have hle : |n.toInt| ≤ 2 ^ 31 := by
    rw [abs_le]
    omega
  rw [value_ofInt32]
  exact_mod_cast hle

theorem isFinite_and_value_add (m n : Int32) : (ofInt32 m + ofInt32 n).isFinite = true ∧
    value (ofInt32 m + ofInt32 n) = (m.toInt + n.toInt : Int) := by
  have hm := Words.bounds m
  have hn := Words.bounds n
  have hsum : |m.toInt + n.toInt| < 2 ^ 53 := by
    rw [abs_lt]
    omega
  have h := rounded_add (isFinite_ofInt32 m) (isFinite_ofInt32 n)
  rw [value_ofInt32, value_ofInt32, ← Int.cast_add] at h
  have hnear := h.nearest (abs_intCast_lt_limit hsum)
  exact ⟨hnear.isFinite, hnear.eq_intCast hsum⟩

end OfInt32

section Literals

@[simp]
theorem isFinite_zero : (0.0 : Float).isFinite = true := rfl

@[simp]
theorem value_zero : value 0.0 = 0 := rfl

@[simp]
theorem value_ofNat_zero : value 0 = 0 := rfl

@[simp]
theorem isFinite_one : (1 : Float).isFinite = true := rfl

@[simp]
theorem value_one : value 1 = 1 := by
  exact_mod_cast (isFinite_and_value_ofNat (m := 1) (by decide)).2

theorem one_eq : (1.0 : Float) = 1 := rfl

@[simp]
theorem isFinite_half : (0.5 : Float).isFinite = true := rfl

@[simp]
theorem value_half : value 0.5 = 1 / 2 := by
  have hunpack : (0.5 : Float).toModel.unpack = .finite .positive (2 ^ 52) (-53) (by decide) := rfl
  rw [value, hunpack, Unpacked.value, signValue, one_mul]
  norm_num

theorem isFinite_two : (2.0 : Float).isFinite = true := rfl

theorem value_two : value 2.0 = 2 := by
  have hunpack : (2.0 : Float).toModel.unpack = .finite .positive (2 ^ 52) (-51) (by decide) := rfl
  rw [value, hunpack, Unpacked.value, signValue, one_mul]
  norm_num

theorem isFinite_four : (4.0 : Float).isFinite = true := rfl

theorem value_four : value 4.0 = 4 := by
  have hunpack : (4.0 : Float).toModel.unpack = .finite .positive (2 ^ 52) (-50) (by decide) := rfl
  rw [value, hunpack, Unpacked.value, signValue, one_mul]
  norm_num

end Literals

theorem one_le_one : (1 : Float) ≤ 1 := (le_iff isFinite_one isFinite_one).2 le_rfl

theorem one_le_ofInt32 {n : Int32} (h : 1 ≤ n) : 1 ≤ ofInt32 n := by
  rw [le_iff isFinite_one (isFinite_ofInt32 n), value_one, value_ofInt32]
  exact_mod_cast Words.le_iff.1 h

end Number

end PatternScript
