import PatternScript.Proofs.Doubles.Whole

/-!
# How far results are from exact ones

A double approximates a number when it is finite and not farther from it than a bound. Each
operation adds up the bounds of its operands and a part of the size of its result.
-/
namespace PatternScript.Number

variable {x y : Float} {p q ε η B P Q R b : ℚ}

/-- The double is finite and within `ε` of `q`. -/
structure Approx (x : Float) (q ε : ℚ) : Prop where
  isFinite : x.isFinite = true
  error : |value x - q| ≤ ε

namespace Approx

theorem self (hx : x.isFinite = true) : Approx x (value x) 0 :=
  ⟨hx, by rw [sub_self, abs_zero]⟩

theorem mono (h : Approx x q ε) (hle : ε ≤ η) : Approx x q η := ⟨h.isFinite, h.error.trans hle⟩

theorem nonneg (h : Approx x q ε) : 0 ≤ ε := (abs_nonneg _).trans h.error

theorem abs_value_le (h : Approx x q ε) : |value x| ≤ |q| + ε := by
  have htriangle := abs_add_le (value x - q) q
  rw [sub_add_cancel] at htriangle
  linarith [h.error]

theorem neg (h : Approx x q ε) : Approx (-x) (-q) ε := by
  refine ⟨by rw [isFinite_neg, h.isFinite], ?_⟩
  rw [value_neg, ← neg_sub', abs_neg]
  exact h.error

theorem abs (h : Approx x q ε) : Approx x.abs |q| ε := by
  refine ⟨by rw [isFinite_abs, h.isFinite], ?_⟩
  rw [value_abs]
  exact (abs_abs_sub_abs_le _ _).trans h.error

theorem of_nearest (h : Nearest x p) (hp : |p| ≤ B) (hB : 1 ≤ B) : Approx x p (B / 2 ^ 53) := by
  have hmax : max |p| (2 ^ (-1022 : Int)) ≤ B :=
    max_le hp ((zpow_le_one_of_nonpos₀ one_le_two (by decide)).trans hB)
  exact ⟨h.isFinite, h.error.trans (by gcongr)⟩

theorem of_rounded (h : Rounded x p) (hp : |p| ≤ B) (hB : 1 ≤ B) (hB' : B ≤ 2 ^ 200)
    (hpq : |p - q| ≤ ε) : Approx x q (ε + B / 2 ^ 53) := by
  have hnear := of_nearest (h.nearest (abs_lt_limit (hp.trans hB'))) hp hB
  refine ⟨hnear.isFinite, ?_⟩
  have htriangle := abs_sub_le (value x) p q
  linarith [hnear.error]

theorem add (hx : Approx x p ε) (hy : Approx y q η) (hsum : |p + q| + (ε + η) ≤ B)
    (hB : 1 ≤ B) (hB' : B ≤ 2 ^ 200) : Approx (x + y) (p + q) (ε + η + B / 2 ^ 53) := by
  have hoff : |value x + value y - (p + q)| ≤ ε + η := by
    have htriangle := abs_add_le (value x - p) (value y - q)
    rw [sub_add_sub_comm] at htriangle
    linarith [hx.error, hy.error]
  refine of_rounded (rounded_add hx.isFinite hy.isFinite) ?_ hB hB' hoff
  have htriangle := abs_add_le (value x + value y - (p + q)) (p + q)
  rw [sub_add_cancel] at htriangle
  linarith

theorem sub (hx : Approx x p ε) (hy : Approx y q η) (hdiff : |p - q| + (ε + η) ≤ B)
    (hB : 1 ≤ B) (hB' : B ≤ 2 ^ 200) : Approx (x - y) (p - q) (ε + η + B / 2 ^ 53) := by
  have hoff : |value x - value y - (p - q)| ≤ ε + η := by
    have htriangle := abs_sub (value x - p) (value y - q)
    rw [sub_sub_sub_comm] at htriangle
    linarith [hx.error, hy.error]
  refine of_rounded (rounded_sub hx.isFinite hy.isFinite) ?_ hB hB' hoff
  have htriangle := abs_add_le (value x - value y - (p - q)) (p - q)
  rw [sub_add_cancel] at htriangle
  linarith

theorem mul (hx : Approx x p ε) (hy : Approx y q η) (hp : |p| ≤ P) (hq : |q| ≤ Q)
    (hprod : (P + ε) * (Q + η) ≤ B) (hB : 1 ≤ B) (hB' : B ≤ 2 ^ 200) :
    Approx (x * y) (p * q) (ε * Q + P * η + ε * η + B / 2 ^ 53) := by
  have hε := hx.nonneg
  have hη := hy.nonneg
  have hoff : |value x * value y - p * q| ≤ ε * Q + P * η + ε * η := by
    have hsplit : value x * value y - p * q =
        (value x - p) * q + p * (value y - q) + (value x - p) * (value y - q) := by ring
    calc |value x * value y - p * q|
        ≤ |(value x - p) * q| + |p * (value y - q)| + |(value x - p) * (value y - q)| := by
          rw [hsplit]
          exact abs_add_three _ _ _
      _ ≤ ε * Q + P * η + ε * η := by
          have hP : 0 ≤ P := (abs_nonneg p).trans hp
          rw [abs_mul, abs_mul, abs_mul]
          gcongr
          · exact hx.error
          · exact hy.error
          · exact hx.error
          · exact hy.error
  refine of_rounded (rounded_mul hx.isFinite hy.isFinite) ?_ hB hB' hoff
  refine le_trans ?_ hprod
  rw [abs_mul]
  have hx' := hx.abs_value_le
  have hy' := hy.abs_value_le
  have hP : 0 ≤ P := (abs_nonneg p).trans hp
  gcongr <;> linarith

theorem div (hx : Approx x p ε) (hy : Approx y q η) (hq : b ≤ |q|) (hη : η < b)
    (hR : |p / q| ≤ R) (hquot : R + (ε + R * η) / (b - η) ≤ B) (hB : 1 ≤ B) (hB' : B ≤ 2 ^ 200) :
    Approx (x / y) (p / q) ((ε + R * η) / (b - η) + B / 2 ^ 53) := by
  have hε := hx.nonneg
  have hη' := hy.nonneg
  have hpos : 0 < b - η := sub_pos.2 hη
  have hq0 : q ≠ 0 := abs_pos.1 (by linarith)
  have hy' : b - η ≤ |value y| := by
    have htriangle := abs_sub_abs_le_abs_sub q (value y)
    rw [abs_sub_comm] at htriangle
    linarith [hy.error]
  have hy0 : value y ≠ 0 := abs_pos.1 (hpos.trans_le hy')
  have hoff : |value x / value y - p / q| ≤ (ε + R * η) / (b - η) := by
    have hsplit : value x / value y - p / q =
        ((value x - p) + p / q * (q - value y)) / value y := by
      field_simp
      ring
    have hnumerator : |value x - p + p / q * (q - value y)| ≤ ε + R * η := by
      refine (abs_add_le _ _).trans (add_le_add hx.error ?_)
      rw [abs_mul, abs_sub_comm q]
      exact mul_le_mul hR hy.error (abs_nonneg _) ((abs_nonneg _).trans hR)
    rw [hsplit, abs_div]
    exact div_le_div₀ ((abs_nonneg _).trans hnumerator) hnumerator hpos hy'
  refine of_rounded (rounded_div hx.isFinite hy.isFinite hy0) ?_ hB hB' hoff
  have htriangle := abs_add_le (value x / value y - p / q) (p / q)
  rw [sub_add_cancel] at htriangle
  linarith

theorem div_value (hx : Approx x p ε) (hy : y.isFinite = true) (hone : 1 ≤ |value y|)
    (hp : |p| + ε ≤ B) (hB : 1 ≤ B) (hB' : B ≤ 2 ^ 200) :
    Approx (x / y) (p / value y) (ε + B / 2 ^ 53) := by
  have hR : |p / value y| ≤ |p| := by
    rw [abs_div]
    exact div_le_self (abs_nonneg p) hone
  exact (hx.div (B := B) (self hy) hone one_pos hR (by linarith) hB hB').mono (by linarith)

end Approx

theorem Nearest.abs_sub_le (h : Nearest x q) (hx : |value x| ≤ B) (hB : 1 ≤ B) :
    |value x - q| ≤ 2 * B / 2 ^ 53 := by
  have htiny : (2 : ℚ) ^ (-1022 : Int) ≤ 1 := zpow_le_one_of_nonpos₀ one_le_two (by decide)
  have herror := h.error
  have htriangle := abs_sub_abs_le_abs_sub q (value x)
  rw [abs_sub_comm] at htriangle
  rcases max_choice |q| ((2 : ℚ) ^ (-1022 : Int)) with hmax | hmax
  · rw [hmax] at herror
    linarith
  · rw [hmax] at herror
    linarith

end PatternScript.Number
