import PatternScript.Proofs.Doubles.Extremes
import PatternScript.Proofs.Doubles.Roots
import PatternScript.Proofs.Plane.Accuracy

/-!
# How much a map stretches

The computed factors are the singular values of the linear part, up to rounding. What counts
is that no vector is stretched by less than the first or by more than the second, but for a
millionth of its length.
-/
namespace PatternScript.Affine

open Number

def linear (m : Affine) (w : ℚ × ℚ) : ℚ × ℚ :=
  (value m.xx * w.1 + value m.xy * w.2, value m.yx * w.1 + value m.yy * w.2)

def lengthSq (w : ℚ × ℚ) : ℚ := w.1 ^ 2 + w.2 ^ 2

def entriesSq (m : Affine) : ℚ :=
  value m.xx ^ 2 + value m.yx ^ 2 + value m.xy ^ 2 + value m.yy ^ 2

theorem image_sub_image (m : Affine) (p q : ℚ × ℚ) :
    ((m.image p).1 - (m.image q).1, (m.image p).2 - (m.image q).2) =
      m.linear (p.1 - q.1, p.2 - q.2) := by
  simp only [image, linear, Prod.mk.injEq]
  constructor <;> ring

section Forms

variable {A B C t u v : ℚ} {m : Affine}

theorem form_nonneg (htrace : 0 ≤ A + C) (hdet : B ^ 2 ≤ A * C) (u v : ℚ) :
    0 ≤ A * u ^ 2 + 2 * B * u * v + C * v ^ 2 := by
  have hA : 0 ≤ A := by
    by_contra hneg
    have hC : 0 < C := by linarith
    have := mul_neg_of_neg_of_pos (not_le.1 hneg) hC
    linarith [sq_nonneg B]
  rcases hA.eq_or_lt with rfl | hpos
  · have hB : B = 0 := by
      have : B ^ 2 = 0 := le_antisymm (by linarith) (sq_nonneg B)
      exact pow_eq_zero_iff two_ne_zero |>.1 this
    have hC : 0 ≤ C := by linarith
    rw [hB]
    nlinarith [sq_nonneg v]
  · refine nonneg_of_mul_nonneg_right ?_ hpos
    have hsplit : A * (A * u ^ 2 + 2 * B * u * v + C * v ^ 2) =
        (A * u + B * v) ^ 2 + (A * C - B ^ 2) * v ^ 2 := by ring
    rw [hsplit]
    have h₁ := sq_nonneg (A * u + B * v)
    have h₂ := mul_nonneg (sub_nonneg.2 hdet) (sq_nonneg v)
    linarith

theorem mul_lengthSq_le (htrace : 2 * t ≤ m.entriesSq)
    (hdet : m.entriesSq ^ 2 - 4 * m.exactDet ^ 2 ≤ (m.entriesSq - 2 * t) ^ 2) (w : ℚ × ℚ) :
    t * lengthSq w ≤ lengthSq (m.linear w) := by
  have hform := form_nonneg (A := value m.xx ^ 2 + value m.yx ^ 2 - t)
    (B := value m.xx * value m.xy + value m.yx * value m.yy)
    (C := value m.xy ^ 2 + value m.yy ^ 2 - t) ?_ ?_ w.1 w.2
  · rw [lengthSq, lengthSq, linear]
    linarith
  · rw [entriesSq] at htrace
    linarith
  · rw [entriesSq, exactDet] at hdet
    linarith

theorem lengthSq_le_mul (htrace : m.entriesSq ≤ 2 * t)
    (hdet : m.entriesSq ^ 2 - 4 * m.exactDet ^ 2 ≤ (2 * t - m.entriesSq) ^ 2) (w : ℚ × ℚ) :
    lengthSq (m.linear w) ≤ t * lengthSq w := by
  have hform := form_nonneg (A := t - (value m.xx ^ 2 + value m.yx ^ 2))
    (B := -(value m.xx * value m.xy + value m.yx * value m.yy))
    (C := t - (value m.xy ^ 2 + value m.yy ^ 2)) ?_ ?_ w.1 w.2
  · rw [lengthSq, lengthSq, linear]
    linarith
  · rw [entriesSq] at htrace
    linarith
  · rw [entriesSq, exactDet] at hdet
    linarith

end Forms

/-- What the computed factors `lo` and `hi` tell about a map. -/
structure Stretched (m : Affine) (lo hi : ℚ) : Prop where
  lo_nonneg : 0 ≤ lo
  hi_nonneg : 0 ≤ hi
  lo_ge : 1 / 66 ≤ lo ^ 2
  lo_le : lo ^ 2 ≤ 17
  hi_ge : 49 / 100 ≤ hi ^ 2
  hi_le : hi ^ 2 ≤ 17
  lower : ∀ w, (lo ^ 2 - 1 / 2 ^ 20) * lengthSq w ≤ lengthSq (m.linear w)
  upper : ∀ w, lengthSq (m.linear w) ≤ (hi ^ 2 + 1 / 2 ^ 20) * lengthSq w

section Factors

variable {m : Affine} {L d lo hi : ℚ}

theorem Regular.entriesSq_le (h : m.Regular L) : m.entriesSq ≤ 16 := by
  have hsq {x : ℚ} (hx : |x| ≤ 2) : x ^ 2 ≤ 4 := by
    rw [← sq_abs]
    nlinarith [abs_nonneg x]
  rw [entriesSq]
  linarith [hsq h.xx_le, hsq h.yx_le, hsq h.xy_le, hsq h.yy_le]

theorem two_mul_abs_exactDet_le (m : Affine) : 2 * |m.exactDet| ≤ m.entriesSq := by
  have h₁ := sq_nonneg (value m.xx - value m.yy)
  have h₂ := sq_nonneg (value m.yx + value m.xy)
  have h₃ := sq_nonneg (value m.xx + value m.yy)
  have h₄ := sq_nonneg (value m.yx - value m.xy)
  rw [entriesSq, exactDet]
  rcases abs_cases (value m.xx * value m.yy - value m.yx * value m.xy) with ⟨h, -⟩ | ⟨h, -⟩ <;>
    rw [h] <;> linarith

theorem Regular.stretched_of_near (h : m.Regular L) (hd : 0 ≤ d)
    (hdisc : |d ^ 2 - (m.entriesSq ^ 2 - 4 * m.exactDet ^ 2)| ≤ 1 / 2 ^ 40) (hlo : 0 ≤ lo)
    (hlo' : |lo ^ 2 - (m.entriesSq - d) / 2| ≤ 1 / 2 ^ 44) (hhi : 0 ≤ hi)
    (hhi' : |hi ^ 2 - (m.entriesSq + d) / 2| ≤ 1 / 2 ^ 44) : m.Stretched lo hi := by
  have hp := h.entriesSq_le
  have hdet := h.det_ge
  have hmean := two_mul_abs_exactDet_le m
  have hdetSq : 1 / 4 ≤ m.exactDet ^ 2 := by
    rw [← sq_abs]
    nlinarith
  obtain ⟨hdisc₁, hdisc₂⟩ := abs_le.1 hdisc
  obtain ⟨hlo₁, hlo₂⟩ := abs_le.1 hlo'
  obtain ⟨hhi₁, hhi₂⟩ := abs_le.1 hhi'
  have hsmall : d ≤ m.entriesSq - 2 / 65 := by
    by_contra hlarge
    have hsquare := pow_le_pow_left₀ (by linarith) (not_le.1 hlarge).le 2
    linarith
  -- The square of a sum is not less than the sum of the squares.
  have hroom {r : ℚ} (hr : d + 1 / 2 ^ 20 ≤ r) :
      m.entriesSq ^ 2 - 4 * m.exactDet ^ 2 ≤ r ^ 2 := by
    have hsquare := pow_le_pow_left₀ (by positivity) hr 2
    linarith
  refine ⟨hlo, hhi, by linarith, by linarith, by linarith, by linarith, fun w => ?_, fun w => ?_⟩
  · exact mul_lengthSq_le (by linarith) (hroom (by linarith)) w
  · exact lengthSq_le_mul (by linarith) (hroom (by linarith)) w

theorem Regular.approx_entriesSq (h : m.Regular L) :
    Approx (m.xx * m.xx + m.yx * m.yx + m.xy * m.xy + m.yy * m.yy) m.entriesSq (67 / 2 ^ 53) := by
  have square {x : Float} (hx : x.isFinite = true) (hle : |value x| ≤ 2) :
      Approx (x * x) (value x ^ 2) (4 / 2 ^ 53) := by
    rw [sq]
    exact ((Approx.self hx).mul (B := 4) (Approx.self hx) hle hle (by norm_num) (by norm_num)
      (by norm_num)).mono (by norm_num)
  have hxx := square h.isFinite_xx h.xx_le
  have hyx := square h.isFinite_yx h.yx_le
  have hxy := square h.isFinite_xy h.xy_le
  have hyy := square h.isFinite_yy h.yy_le
  have hle := h.entriesSq_le
  rw [entriesSq] at hle ⊢
  have h₁ := sq_nonneg (value m.xx)
  have h₂ := sq_nonneg (value m.yx)
  have h₃ := sq_nonneg (value m.xy)
  have h₄ := sq_nonneg (value m.yy)
  have hsize {q ε : ℚ} (hq : 0 ≤ q) (hq' : q ≤ 16) (hε : ε ≤ 1) : |q| + ε ≤ 17 := by
    rw [abs_of_nonneg hq]
    linarith
  have hfirst := hxx.add (B := 17) hyx (hsize (by linarith) (by linarith) (by norm_num))
    (by norm_num) (by norm_num)
  have hsecond := hfirst.add (B := 17) hxy (hsize (by linarith) (by linarith) (by norm_num))
    (by norm_num) (by norm_num)
  exact (hsecond.add (B := 17) hyy (hsize (by linarith) hle (by norm_num))
    (by norm_num) (by norm_num)).mono (by norm_num)

theorem Regular.approx_discriminant (h : m.Regular L) {p : Float}
    (hp : Approx p m.entriesSq (67 / 2 ^ 53)) :
    Approx (p * p - 4.0 * m.det.abs * m.det.abs) (m.entriesSq ^ 2 - 4 * m.exactDet ^ 2)
      (4400 / 2 ^ 53) := by
  have hle := h.entriesSq_le
  have hmean := two_mul_abs_exactDet_le m
  have hdet := h.approx_det.abs
  have hpos := abs_nonneg m.exactDet
  have hdetSq : m.exactDet ^ 2 = |m.exactDet| ^ 2 := (sq_abs _).symm
  rw [hdetSq]
  generalize |m.exactDet| = D at *
  generalize m.entriesSq = P at *
  have hP : |P| ≤ 16 := by rwa [abs_of_nonneg (by linarith)]
  have hD : |D| ≤ 8 := by
    rw [abs_of_nonneg hpos]
    linarith
  have hself := Approx.self isFinite_four
  rw [value_four] at hself
  have hsquare := hp.mul (B := 257) hp hP hP (by norm_num) (by norm_num) (by norm_num)
  have hdouble := hself.mul (B := 33) hdet (P := 4) (by norm_num) hD (by norm_num)
    (by norm_num) (by norm_num)
  have hprod : |4 * D| ≤ 32 := by
    rw [abs_of_nonneg (by linarith)]
    linarith
  have hquad := hdouble.mul (B := 257) hdet hprod hD (by norm_num) (by norm_num) (by norm_num)
  have hsplit : P ^ 2 - 4 * D ^ 2 = P * P - 4 * D * D := by ring
  have hsize : |P * P - 4 * D * D| ≤ 256 := by
    have h₁ := mul_self_le_mul_self (by linarith) hle
    have h₂ := mul_self_nonneg D
    have h₃ := mul_self_le_mul_self (by linarith) hmean
    rw [abs_le]
    constructor <;> linarith
  rw [hsplit]
  exact (hsquare.sub (B := 258) hquad (by linarith) (by norm_num) (by norm_num)).mono
    (by norm_num)

theorem approx_greatest_zero {x : Float} {q ε : ℚ} (h : Approx x q ε) (hq : 0 ≤ q) :
    Approx (greatest x 0.0) q ε ∧ 0 ≤ value (greatest x 0.0) := by
  obtain ⟨-, hvalue⟩ := Number.isFinite_and_value_greatest h.isFinite isFinite_zero
  have hgreatest := h.greatest isFinite_zero
  rw [value_zero] at hvalue
  rw [value_zero, max_eq_left hq] at hgreatest
  exact ⟨hgreatest, hvalue ▸ le_max_right _ _⟩

theorem abs_sqrt_sq_sub_le {x : Float} {q ε B : ℚ} (h : Approx x q ε) (hpos : 0 ≤ value x)
    (hle : q + ε ≤ B) (hB : B ≤ 2 ^ 200) : x.sqrt.isFinite = true ∧ 0 ≤ value x.sqrt ∧
      |value x.sqrt ^ 2 - q| ≤ ε + B / 2 ^ 50 := by
  have herror := abs_le.1 h.error
  obtain ⟨hfinite, hsqrt, hnear⟩ :=
    isFinite_and_value_sqrt h.isFinite hpos (by linarith [herror.2])
  refine ⟨hfinite, hsqrt, ?_⟩
  have htriangle := abs_sub_le (value x.sqrt ^ 2) (value x) q
  linarith [h.error]

theorem Regular.stretched (h : m.Regular L) :
    m.stretch.1.isFinite = true ∧ m.stretch.2.isFinite = true ∧
      m.Stretched (value m.stretch.1) (value m.stretch.2) := by
  have hp := h.approx_entriesSq
  have hle := h.entriesSq_le
  have hmean := two_mul_abs_exactDet_le m
  have hdisc := h.approx_discriminant hp
  have hdiscPos : 0 ≤ m.entriesSq ^ 2 - 4 * m.exactDet ^ 2 := by
    have hsquare := pow_le_pow_left₀ (by positivity) hmean 2
    rw [mul_pow, sq_abs] at hsquare
    linarith
  have hdiscLe : m.entriesSq ^ 2 - 4 * m.exactDet ^ 2 ≤ 256 := by
    have hpos := abs_nonneg m.exactDet
    have hsquare := pow_le_pow_left₀ (by linarith) hle 2
    linarith [sq_nonneg m.exactDet]
  obtain ⟨hgreatest, hgreatestPos⟩ := approx_greatest_zero hdisc hdiscPos
  obtain ⟨hd, hdPos, hdSq⟩ := abs_sqrt_sq_sub_le (B := 257) hgreatest hgreatestPos (by linarith)
    (by norm_num)
  have hone : 1 ≤ m.entriesSq := by linarith [h.det_ge]
  generalize hroot : (greatest ((m.xx * m.xx + m.yx * m.yx + m.xy * m.xy + m.yy * m.yy) *
    (m.xx * m.xx + m.yx * m.yx + m.xy * m.xy + m.yy * m.yy) -
      4.0 * m.det.abs * m.det.abs) 0.0).sqrt = d at *
  have hdLe : value d ≤ m.entriesSq := by
    have hdetSq : 1 / 4 ≤ m.exactDet ^ 2 := by
      have hsquare := pow_le_pow_left₀ (by norm_num) h.det_ge 2
      rw [sq_abs] at hsquare
      linarith
    refine (sq_le_sq₀ hdPos (by linarith)).1 ?_
    linarith [(abs_le.1 hdSq).2]
  have hself := Approx.self hd
  have hdiff := hp.sub (B := 33) hself (by rw [abs_of_nonneg (by linarith)]; linarith)
    (by norm_num) (by norm_num)
  have hsum := hp.add (B := 33) hself (by rw [abs_of_nonneg (by linarith)]; linarith)
    (by norm_num) (by norm_num)
  have htwo : 1 ≤ |value 2.0| := by rw [value_two]; norm_num
  have hdiffHalf := hdiff.div_value (B := 33) isFinite_two htwo
    (by rw [abs_of_nonneg (by linarith)]; linarith) (by norm_num) (by norm_num)
  have hsumHalf := hsum.div_value (B := 33) isFinite_two htwo
    (by rw [abs_of_nonneg (by linarith)]; linarith) (by norm_num) (by norm_num)
  rw [value_two] at hdiffHalf hsumHalf
  obtain ⟨hlow, hlowPos⟩ := approx_greatest_zero hdiffHalf (by linarith)
  obtain ⟨hlo, hloPos, hloSq⟩ := abs_sqrt_sq_sub_le (B := 33) hlow hlowPos (by linarith)
    (by norm_num)
  have hhighPos := (abs_le.1 hsumHalf.error).1
  obtain ⟨hhi, hhiPos, hhiSq⟩ := abs_sqrt_sq_sub_le (B := 33) hsumHalf (by linarith)
    (by linarith) (by norm_num)
  have hstretch : m.stretch = ((greatest ((m.xx * m.xx + m.yx * m.yx + m.xy * m.xy +
      m.yy * m.yy - d) / 2.0) 0.0).sqrt, ((m.xx * m.xx + m.yx * m.yx + m.xy * m.xy +
        m.yy * m.yy + d) / 2.0).sqrt) := by
    rw [← hroot]
    rfl
  rw [hstretch]
  exact ⟨hlo, hhi, h.stretched_of_near hdPos (hdSq.trans (by norm_num)) hloPos
    (hloSq.trans (by norm_num)) hhiPos (hhiSq.trans (by norm_num))⟩

end Factors

end PatternScript.Affine
