import PatternScript.Proofs.Bounds.Frames
import PatternScript.Proofs.Plane.Stretching

/-!
# Boxes around a center

A map sends a disc into the square whose half side is the radius times the greatest factor, and
over the square that fits in the disc whose radius is multiplied by the least one. Both hold
with some part of a pixel to spare, which takes up the errors of the computed factors.
-/
namespace PatternScript

open Number

namespace Affine

variable {m : Affine} {lo hi R η τ : ℚ} {p c : ℚ × ℚ}

theorem lengthSq_linear_sub (m : Affine) (p c : ℚ × ℚ) :
    lengthSq (m.linear (p.1 - c.1, p.2 - c.2)) =
      ((m.image p).1 - (m.image c).1) ^ 2 + ((m.image p).2 - (m.image c).2) ^ 2 := by
  rw [← image_sub_image, lengthSq]

theorem Stretched.lo_bounds (h : m.Stretched lo hi) : 123 / 1000 ≤ lo ∧ lo ≤ 5 := by
  have hle := h.lo_le
  have hge := h.lo_ge
  have hpos := h.lo_nonneg
  constructor
  · refine (sq_le_sq₀ (by norm_num) hpos).1 ?_
    linarith
  · refine (sq_le_sq₀ hpos (by norm_num)).1 ?_
    linarith

theorem Stretched.hi_bounds (h : m.Stretched lo hi) : 7 / 10 ≤ hi ∧ hi ≤ 5 := by
  have hle := h.hi_le
  have hge := h.hi_ge
  have hpos := h.hi_nonneg
  constructor
  · refine (sq_le_sq₀ (by norm_num) hpos).1 ?_
    linarith
  · refine (sq_le_sq₀ hpos (by norm_num)).1 ?_
    linarith

theorem Stretched.lengthSq_le_of_square (h : m.Stretched lo hi) (hR : 1 / 2 ≤ R) (hR' : R ≤ 2 ^ 15)
    (hτ : 1 ≤ τ) (hτ' : τ ≤ 10 / 7) (htwo : 2 - 1 / 2 ^ 50 ≤ τ ^ 2) (hη : η * τ = R * lo)
    (h₁ : |(m.image p).1 - (m.image c).1| ≤ η - 3 / 8)
    (h₂ : |(m.image p).2 - (m.image c).2| ≤ η - 3 / 8) :
    lengthSq (p.1 - c.1, p.2 - c.2) ≤ (R - 1 / 1024) ^ 2 := by
  obtain ⟨hlo, hlo'⟩ := h.lo_bounds
  have hη₀ : 3 / 8 ≤ η := by linarith [abs_nonneg ((m.image p).1 - (m.image c).1)]
  have hsquare : lengthSq (m.linear (p.1 - c.1, p.2 - c.2)) ≤ 2 * (η - 3 / 8) ^ 2 := by
    rw [lengthSq_linear_sub, two_mul, ← sq_abs ((m.image p).1 - _), ← sq_abs ((m.image p).2 - _)]
    exact add_le_add (pow_le_pow_left₀ (abs_nonneg _) h₁ 2) (pow_le_pow_left₀ (abs_nonneg _) h₂ 2)
  have hlower := h.lower (p.1 - c.1, p.2 - c.2)
  by_contra hfar
  have hgap : 0 < lo ^ 2 - 1 / 2 ^ 20 := by linarith [h.lo_ge]
  have hdisc := (mul_lt_mul_of_pos_left (not_le.1 hfar) hgap).trans_le (hlower.trans hsquare)
  have hR₀ : 0 ≤ R := by linarith
  obtain ⟨P, hP⟩ : ∃ P, P = R * lo := ⟨_, rfl⟩
  have hP₀ : 123 / 1000 * R ≤ P := by
    rw [hP, mul_comm]
    exact mul_le_mul_of_nonneg_left hlo hR₀
  have hηP : 7 / 10 * P ≤ η := by
    have := mul_le_mul_of_nonneg_left hτ' (show 0 ≤ η by linarith)
    linarith
  have hsmall : R ^ 2 / 2 ^ 20 ≤ 26 / 100 * P := by
    have := mul_le_mul_of_nonneg_left hR' hR₀
    linarith
  have hside : R * lo ^ 2 / 512 ≤ P / 100 := by
    have := mul_le_mul_of_nonneg_left hlo' (show 0 ≤ P by linarith)
    rw [sq, ← mul_assoc, ← hP]
    linarith
  have hhalf : 2 * η ^ 2 ≤ P ^ 2 + P / 100 := by
    have hle : η ≤ P := by
      have := mul_le_mul_of_nonneg_left hτ (show 0 ≤ η by linarith)
      linarith
    have hlimit : P ≤ 2 ^ 18 := by
      have := mul_le_mul hR' hlo' (by linarith) (by norm_num)
      linarith
    have hP₂ : P ^ 2 = η ^ 2 * τ ^ 2 := by rw [← mul_pow, hη, hP]
    have htwo' := mul_le_mul_of_nonneg_left htwo (sq_nonneg η)
    have hηη := mul_le_mul (hle.trans hlimit) hle (by linarith) (by norm_num)
    linarith
  have hsplit : P ^ 2 = R ^ 2 * lo ^ 2 := by rw [hP, mul_pow]
  linarith [h.lo_ge]

theorem Stretched.abs_image_sub_le_of_disc (h : m.Stretched lo hi) (hR : 1 ≤ R)
    (hR' : R ≤ 2 ^ 15) (hdisc : lengthSq (p.1 - c.1, p.2 - c.2) ≤ R ^ 2 * (1 + 1 / 2 ^ 40)) :
    |(m.image p).1 - (m.image c).1| ≤ R * hi + 1 / 8 ∧
      |(m.image p).2 - (m.image c).2| ≤ R * hi + 1 / 8 := by
  obtain ⟨hhi, hhi'⟩ := h.hi_bounds
  have hupper := (h.upper (p.1 - c.1, p.2 - c.2)).trans
    (mul_le_mul_of_nonneg_left hdisc (by positivity))
  rw [lengthSq_linear_sub] at hupper
  obtain ⟨Q, hQ⟩ : ∃ Q, Q = R * hi := ⟨_, rfl⟩
  have hQ₀ : 7 / 10 * R ≤ Q := by
    rw [hQ, mul_comm]
    exact mul_le_mul_of_nonneg_left hhi (by linarith)
  have hlimit : Q ≤ 2 ^ 18 := by
    have := mul_le_mul hR' hhi' (by linarith) (by norm_num)
    linarith
  have hsquares : (hi ^ 2 + 1 / 2 ^ 20) * (R ^ 2 * (1 + 1 / 2 ^ 40)) ≤ (R * hi + 1 / 8) ^ 2 := by
    have hsplit : Q ^ 2 = hi ^ 2 * R ^ 2 := by rw [hQ, mul_pow, mul_comm]
    have hQQ := mul_le_mul_of_nonneg_left hlimit (show 0 ≤ Q by linarith)
    have hRR := mul_le_mul_of_nonneg_left hR' (show 0 ≤ R by linarith)
    rw [← hQ]
    linarith
  rw [← hQ] at hsquares ⊢
  constructor
  · refine abs_le_of_sq_le_sq ?_ (by linarith)
    linarith [sq_nonneg ((m.image p).2 - (m.image c).2)]
  · refine abs_le_of_sq_le_sq ?_ (by linarith)
    linarith [sq_nonneg ((m.image p).1 - (m.image c).1)]

end Affine

namespace Number

theorem isFinite_sqrtTwo : sqrtTwo.isFinite = true := rfl

theorem value_sqrtTwo : 1 ≤ value sqrtTwo ∧ value sqrtTwo ≤ 10 / 7 ∧
    2 - 1 / 2 ^ 50 ≤ value sqrtTwo ^ 2 := by
  have hunpack : sqrtTwo.toModel.unpack = .finite .positive 6369051672525773 (-52) (by decide) :=
    rfl
  have hvalue : value sqrtTwo = 6369051672525773 / 2 ^ 52 := by
    rw [value, hunpack, Unpacked.value, Unpacked.signValue, one_mul]
    norm_num
  rw [hvalue]
  norm_num

end Number

namespace ExactBox

variable {center : Point} {half : Float} {c : ℚ × ℚ} {η : ℚ} {width height x y : Int32}

structure IsAround (e : ExactBox) (c : ℚ × ℚ) (η : ℚ) : Prop where
  minX : Approx e.minX (c.1 - η) (1 / 2 ^ 18)
  minY : Approx e.minY (c.2 - η) (1 / 2 ^ 18)
  maxX : Approx e.maxX (c.1 + η) (1 / 2 ^ 18)
  maxY : Approx e.maxY (c.2 + η) (1 / 2 ^ 18)

theorem isAround (hx : Approx center.x c.1 (1 / 2 ^ 20)) (hy : Approx center.y c.2 (1 / 2 ^ 20))
    (hhalf : Approx half η (1 / 2 ^ 20)) (hc₁ : |c.1| ≤ 2 ^ 20) (hc₂ : |c.2| ≤ 2 ^ 20)
    (hη : |η| ≤ 2 ^ 20) : (around center half).IsAround c η := by
  have low {z : Float} {q : ℚ} (hz : Approx z q (1 / 2 ^ 20)) (hq : |q| ≤ 2 ^ 20) :
      Approx (z - half) (q - η) (1 / 2 ^ 18) :=
    (hz.sub (B := 2 ^ 22) hhalf (by linarith [abs_sub q η]) (by norm_num) (by norm_num)).mono
      (by norm_num)
  have high {z : Float} {q : ℚ} (hz : Approx z q (1 / 2 ^ 20)) (hq : |q| ≤ 2 ^ 20) :
      Approx (z + half) (q + η) (1 / 2 ^ 18) :=
    (hz.add (B := 2 ^ 22) hhalf (by linarith [abs_add_le q η]) (by norm_num) (by norm_num)).mono
      (by norm_num)
  exact ⟨low hx hc₁, low hy hc₂, high hx hc₁, high hy hc₂⟩

theorem IsAround.isFinite {e : ExactBox} (h : e.IsAround c η) : e.isFinite = true :=
  isFinite_iff.2 ⟨⟨h.minX.isFinite, h.maxX.isFinite⟩, h.minY.isFinite, h.maxY.isFinite⟩

theorem IsAround.abs_sub_le {e : ExactBox} (h : e.IsAround c η)
    (hon : (Rect.ofSize width height).contains x y = true)
    (hin : e.innerRect.contains x y = true) :
    |(x.toInt + 1 / 2 : ℚ) - c.1| ≤ η - 7 / 16 ∧ |(y.toInt + 1 / 2 : ℚ) - c.2| ≤ η - 7 / 16 := by
  obtain ⟨⟨hx₀, hx₁⟩, hy₀, hy₁⟩ := of_contains_innerRect h.isFinite hon hin
  have eminX := abs_le.1 h.minX.error
  have eminY := abs_le.1 h.minY.error
  have emaxX := abs_le.1 h.maxX.error
  have emaxY := abs_le.1 h.maxY.error
  constructor <;> rw [abs_le] <;> constructor <;> linarith

theorem IsAround.contains_outerRect {e : ExactBox} {slack : Int32} (h : e.IsAround c η)
    (hslack : 0 ≤ slack.toInt) (hon : (Rect.ofSize width height).contains x y = true)
    (hx : |(x.toInt + 1 / 2 : ℚ) - c.1| ≤ η + 3 / 16)
    (hy : |(y.toInt + 1 / 2 : ℚ) - c.2| ≤ η + 3 / 16) :
    (e.outerRect slack).contains x y = true := by
  have eminX := abs_le.1 h.minX.error
  have eminY := abs_le.1 h.minY.error
  have emaxX := abs_le.1 h.maxX.error
  have emaxY := abs_le.1 h.maxY.error
  obtain ⟨hx₁, hx₂⟩ := abs_le.1 hx
  obtain ⟨hy₁, hy₂⟩ := abs_le.1 hy
  refine contains_outerRect_of_center h.isFinite hslack hon ⟨?_, ?_⟩ ⟨?_, ?_⟩ <;> linarith

end ExactBox

namespace Item

variable {item : Item} {length f : Float}

theorem Moderate.approx_stretched (h : item.Moderate) (hl : Short length (value item.scale))
    (hf : f.isFinite = true) (hf' : |value f| ≤ 5) :
    Approx (length * item.scale * f) (value length * value item.scale * value f) (1 / 2 ^ 32) := by
  have hs := h.one_le_scale
  have hscaled : Approx (length * item.scale) (value length * value item.scale) (2 ^ 15 / 2 ^ 53) :=
    ((Approx.self hl.isFinite).mul (B := 2 ^ 15) (Approx.self h.isFinite_scale) le_rfl
      (abs_of_nonneg (show 0 ≤ value item.scale by linarith)).le (by linarith [hl.reach])
      (by norm_num) (by norm_num)).mono (by linarith)
  exact (hscaled.mul (B := 2 ^ 18) (Approx.self hf) (hl.abs_mul_le hs) hf' (by norm_num)
    (by norm_num) (by norm_num)).mono (by norm_num)

theorem Moderate.approx_square (h : item.Moderate) (hl : Short length (value item.scale))
    (hf : f.isFinite = true) (hf' : |value f| ≤ 5) :
    (Approx (length * item.scale * f / sqrtTwo)
        (value length * value item.scale * value f / value sqrtTwo) (1 / 2 ^ 20) ∧
      |value length * value item.scale * value f / value sqrtTwo| ≤ 2 ^ 20) ∧
    Approx (length * item.scale * f / 2.0 / sqrtTwo)
        (value length * value item.scale * value f / 2 / value sqrtTwo) (1 / 2 ^ 20) ∧
      |value length * value item.scale * value f / 2 / value sqrtTwo| ≤ 2 ^ 20 := by
  have hstretched := h.approx_stretched hl hf hf'
  have hsize : |value length * value item.scale * value f| ≤ 2 ^ 18 :=
    (Affine.abs_mul_le_mul (hl.abs_mul_le h.one_le_scale) hf').trans (by norm_num)
  generalize value length * value item.scale * value f = q at *
  have hsize' : |q / 2| ≤ 2 ^ 18 := by
    rw [abs_div, abs_two]
    linarith [abs_nonneg q]
  have htwo : 1 ≤ |value 2.0| := by rw [value_two]; norm_num
  have hroot : 1 ≤ |value sqrtTwo| := by
    rw [abs_of_nonneg (by linarith [value_sqrtTwo.1])]
    exact value_sqrtTwo.1
  have hle {v : ℚ} (hv : |v| ≤ 2 ^ 18) : |v / value sqrtTwo| ≤ 2 ^ 20 := by
    rw [abs_div]
    exact ((div_le_self (abs_nonneg v) hroot).trans hv).trans (by norm_num)
  have hhalf := hstretched.div_value (B := 2 ^ 19) isFinite_two htwo (by linarith) (by norm_num)
    (by norm_num)
  rw [value_two] at hhalf
  refine ⟨⟨?_, hle hsize⟩, ?_, hle hsize'⟩
  · exact (hstretched.div_value (B := 2 ^ 19) isFinite_sqrtTwo hroot (by linarith) (by norm_num)
      (by norm_num)).mono (by norm_num)
  · exact (hhalf.div_value (B := 2 ^ 19) isFinite_sqrtTwo hroot (by linarith) (by norm_num)
      (by norm_num)).mono (by norm_num)

theorem Moderate.approx_center (h : item.Moderate) {p : Point} (hx : p.x.isFinite = true)
    (hy : p.y.isFinite = true) (hx' : |(item.scaled p).1| ≤ 2 ^ 17)
    (hy' : |(item.scaled p).2| ≤ 2 ^ 17) :
    (Approx (item.toScreen p).x (item.matrix.image (item.scaled p)).1 (1 / 2 ^ 20) ∧
      Approx (item.toScreen p).y (item.matrix.image (item.scaled p)).2 (1 / 2 ^ 20)) ∧
    |(item.matrix.image (item.scaled p)).1| ≤ 2 ^ 20 ∧
      |(item.matrix.image (item.scaled p)).2| ≤ 2 ^ 20 := by
  obtain ⟨h₁, h₂⟩ := h.approx_toScreen hx hy hx' hy'
  obtain ⟨h₃, h₄⟩ := h.regular.abs_image_sub_offset_le hx' hy'
  have far {z t : ℚ} (hz : |z - t| ≤ 4 * 2 ^ 17) (ht : |t| ≤ 2 ^ 16) : |z| ≤ 2 ^ 20 := by
    have hsum := abs_add_le (z - t) t
    rw [sub_add_cancel] at hsum
    linarith
  exact ⟨⟨h₁.mono (by norm_num), h₂.mono (by norm_num)⟩, far h₃ h.regular.tx_le,
    far h₄ h.regular.ty_le⟩

section Squares

variable {b : Frame} {p c : ℚ × ℚ} {width height x y : Int32} {e : ExactBox} {R η : ℚ}

theorem Moderate.lengthSq_le_of_innerRect (h : item.Moderate)
    (he : e.IsAround (item.matrix.image c) η)
    (hη : η = R * value item.matrix.stretch.1 / value sqrtTwo)
    (hR : 1 / 2 ≤ R) (hR' : R ≤ 2 ^ 15) (hland : item.Lands x y p)
    (hon : (Rect.ofSize width height).contains x y = true)
    (hin : e.innerRect.contains x y = true) :
    Affine.lengthSq (p.1 - c.1, p.2 - c.2) ≤ (R - 1 / 1024) ^ 2 := by
  obtain ⟨-, -, hstretched⟩ := h.regular.stretched
  obtain ⟨hx, hy⟩ := he.abs_sub_le hon hin
  obtain ⟨hroot, hroot', htwo⟩ := value_sqrtTwo
  have hη' : η * value sqrtTwo = R * value item.matrix.stretch.1 := by
    rw [hη, div_mul_cancel₀ _ (by linarith)]
  have hx' := abs_sub_le (item.matrix.image p).1 (x.toInt + 1 / 2) (item.matrix.image c).1
  have hy' := abs_sub_le (item.matrix.image p).2 (y.toInt + 1 / 2) (item.matrix.image c).2
  exact hstretched.lengthSq_le_of_square hR hR' hroot hroot' htwo hη' (by linarith [hland.1])
    (by linarith [hland.2])

def markingSquare (item : Item) (b : Frame) : ExactBox :=
  .around (item.toScreen ⟨b.x + b.width / 2.0, b.y + b.height / 2.0⟩)
    (least b.width b.height * item.scale * item.matrix.stretch.1 / 2.0 / sqrtTwo)

def middle (item : Item) (b : Frame) : ℚ × ℚ :=
  ((value b.x + value b.width / 2) * value item.scale,
    (value b.y + value b.height / 2) * value item.scale)

theorem Moderate.isAround_markingSquare (h : item.Moderate) (hb : b.Fits (value item.scale)) :
    (item.markingSquare b).IsAround (item.matrix.image (item.middle b))
      (value (least b.width b.height) * value item.scale * value item.matrix.stretch.1 / 2 /
        value sqrtTwo) := by
  have hs := h.one_le_scale
  obtain ⟨hfinite, -, hstretched⟩ := h.regular.stretched
  obtain ⟨hx, hx'⟩ := hb.x.isFinite_and_value_middle hb.width hs
  obtain ⟨hy, hy'⟩ := hb.y.isFinite_and_value_middle hb.height hs
  have hmiddle : item.scaled ⟨b.x + b.width / 2.0, b.y + b.height / 2.0⟩ = item.middle b := by
    rw [scaled, hx', hy']
    rfl
  have inside {c d : Float} (hc : Short c (value item.scale)) (hd : Short d (value item.scale)) :
      |(value c + value d / 2) * value item.scale| ≤ 2 ^ 17 := by
    have hsum := abs_add_le (value c * value item.scale) (value d * value item.scale / 2)
    have hsplit : (value c + value d / 2) * value item.scale =
        value c * value item.scale + value d * value item.scale / 2 := by ring
    rw [hsplit]
    rw [abs_div, abs_two] at hsum
    linarith [hc.abs_mul_le hs, hd.abs_mul_le hs]
  have hcenter := h.approx_center (p := ⟨b.x + b.width / 2.0, b.y + b.height / 2.0⟩) hx hy
  rw [hmiddle] at hcenter
  obtain ⟨⟨hcx, hcy⟩, hfar, hfar'⟩ :=
    hcenter (inside hb.x hb.width) (inside hb.y hb.height)
  have hlo := hstretched.lo_bounds
  have hlo' : |value item.matrix.stretch.1| ≤ 5 := by
    rw [abs_of_nonneg (by linarith)]
    exact hlo.2
  obtain ⟨-, hsquare, hsize⟩ := h.approx_square (hb.width.least hb.height) hfinite hlo'
  exact ExactBox.isAround hcx hcy hsquare hfar hfar' hsize

theorem Moderate.inFrame_of_square (h : item.Moderate) (hb : b.Fits (value item.scale))
    (hland : item.Lands x y p) (hon : (Rect.ofSize width height).contains x y = true)
    (hin : (item.markingSquare b).innerRect.contains x y = true) :
    item.InFrame b (1 / 1024) p := by
  have hs := h.one_le_scale
  have hleast := hb.width.least hb.height
  obtain ⟨-, hmin⟩ := isFinite_and_value_least hb.width.isFinite hb.height.isFinite
  have hwidth : value (least b.width b.height) ≤ value b.width := hmin ▸ min_le_left _ _
  have hheight : value (least b.width b.height) ≤ value b.height := hmin ▸ min_le_right _ _
  have hone := hleast.one_le (hmin ▸ lt_min hb.width_pos hb.height_pos)
  have hreach := (abs_le.1 (hleast.abs_mul_le hs)).2
  have hpos : 0 ≤ value item.scale := by linarith
  have hwidth' := mul_le_mul_of_nonneg_right hwidth hpos
  have hheight' := mul_le_mul_of_nonneg_right hheight hpos
  have hside := one_le_mul_of_one_le_of_one_le hone hs
  have hdisc := h.lengthSq_le_of_innerRect
    (R := value (least b.width b.height) * value item.scale / 2) (h.isAround_markingSquare hb)
    (by ring) (by linarith) (by linarith) hland hon hin
  simp only [Affine.lengthSq] at hdisc
  have hx := abs_le.1 (abs_le_of_sq_le_sq (a := p.1 - (item.middle b).1)
    (b := value (least b.width b.height) * value item.scale / 2 - 1 / 1024)
    (by linarith [sq_nonneg (p.2 - (item.middle b).2)]) (by linarith))
  have hy := abs_le.1 (abs_le_of_sq_le_sq (a := p.2 - (item.middle b).2)
    (b := value (least b.width b.height) * value item.scale / 2 - 1 / 1024)
    (by linarith [sq_nonneg (p.1 - (item.middle b).1)]) (by linarith))
  simp only [middle] at hx hy
  refine ⟨⟨?_, ?_⟩, ?_, ?_⟩ <;> linarith

end Squares

end Item

end PatternScript
