import PatternScript.Plane.Affine
import PatternScript.Proofs.Doubles.Errors

/-!
# How exact maps of the plane are

A map that neither stretches much nor nearly collapses the plane is inverted with an error of
a few hundred units of the last place, so positions keep all but ten of their 53 bits on the
way to the screen and back.
-/
namespace PatternScript.Affine

open Number

def exactDet (m : Affine) : ℚ := value m.xx * value m.yy - value m.yx * value m.xy

def image (m : Affine) (p : ℚ × ℚ) : ℚ × ℚ :=
  (value m.xx * p.1 + value m.xy * p.2 + value m.tx,
    value m.yx * p.1 + value m.yy * p.2 + value m.ty)

def preimage (m : Affine) (p : ℚ × ℚ) : ℚ × ℚ :=
  ((value m.yy * (p.1 - value m.tx) - value m.xy * (p.2 - value m.ty)) / m.exactDet,
    (value m.xx * (p.2 - value m.ty) - value m.yx * (p.1 - value m.tx)) / m.exactDet)

theorem image_preimage {m : Affine} (hdet : m.exactDet ≠ 0) (p : ℚ × ℚ) :
    m.image (m.preimage p) = p := by
  have hfst : value m.xx * (value m.yy * (p.1 - value m.tx) - value m.xy * (p.2 - value m.ty)) +
      value m.xy * (value m.xx * (p.2 - value m.ty) - value m.yx * (p.1 - value m.tx)) =
        (p.1 - value m.tx) * m.exactDet := by
    rw [exactDet]
    ring
  have hsnd : value m.yx * (value m.yy * (p.1 - value m.tx) - value m.xy * (p.2 - value m.ty)) +
      value m.yy * (value m.xx * (p.2 - value m.ty) - value m.yx * (p.1 - value m.tx)) =
        (p.2 - value m.ty) * m.exactDet := by
    rw [exactDet]
    ring
  rw [image, preimage, ← mul_div_assoc, ← mul_div_assoc, ← mul_div_assoc, ← mul_div_assoc,
    ← add_div, ← add_div, hfst, hsnd, mul_div_cancel_right₀ _ hdet, mul_div_cancel_right₀ _ hdet,
    sub_add_cancel, sub_add_cancel]

theorem preimage_image {m : Affine} (hdet : m.exactDet ≠ 0) (p : ℚ × ℚ) :
    m.preimage (m.image p) = p := by
  have hfst : value m.yy * (value m.xx * p.1 + value m.xy * p.2 + value m.tx - value m.tx) -
      value m.xy * (value m.yx * p.1 + value m.yy * p.2 + value m.ty - value m.ty) =
        p.1 * m.exactDet := by
    rw [exactDet]
    ring
  have hsnd : value m.xx * (value m.yx * p.1 + value m.yy * p.2 + value m.ty - value m.ty) -
      value m.yx * (value m.xx * p.1 + value m.xy * p.2 + value m.tx - value m.tx) =
        p.2 * m.exactDet := by
    rw [exactDet]
    ring
  rw [preimage, image, hfst, hsnd, mul_div_cancel_right₀ _ hdet, mul_div_cancel_right₀ _ hdet]

/-- No entry is greater than two, the determinant is not less than a half, and the map moves
the origin by no more than `L`. -/
structure Regular (m : Affine) (L : ℚ) : Prop where
  isFinite_xx : m.xx.isFinite = true
  isFinite_yx : m.yx.isFinite = true
  isFinite_xy : m.xy.isFinite = true
  isFinite_yy : m.yy.isFinite = true
  isFinite_tx : m.tx.isFinite = true
  isFinite_ty : m.ty.isFinite = true
  xx_le : |value m.xx| ≤ 2
  yx_le : |value m.yx| ≤ 2
  xy_le : |value m.xy| ≤ 2
  yy_le : |value m.yy| ≤ 2
  det_ge : 1 / 2 ≤ |m.exactDet|
  tx_le : |value m.tx| ≤ L
  ty_le : |value m.ty| ≤ L

theorem abs_mul_le_mul {a b A B : ℚ} (ha : |a| ≤ A) (hb : |b| ≤ B) : |a * b| ≤ A * B := by
  rw [abs_mul]
  exact mul_le_mul ha hb (abs_nonneg b) ((abs_nonneg a).trans ha)

section Inverse

variable {m : Affine} {L : ℚ}

theorem Regular.exactDet_ne_zero (h : m.Regular L) : m.exactDet ≠ 0 :=
  abs_pos.1 (lt_of_lt_of_le (by norm_num) h.det_ge)

theorem Regular.approx_det (h : m.Regular L) : Approx m.det m.exactDet (17 / 2 ^ 53) := by
  have hfirst : Approx (m.xx * m.yy) (value m.xx * value m.yy) (4 / 2 ^ 53) :=
    ((Approx.self h.isFinite_xx).mul (B := 4) (Approx.self h.isFinite_yy) h.xx_le h.yy_le
      (by norm_num) (by norm_num) (by norm_num)).mono (by norm_num)
  have hsecond : Approx (m.yx * m.xy) (value m.yx * value m.xy) (4 / 2 ^ 53) :=
    ((Approx.self h.isFinite_yx).mul (B := 4) (Approx.self h.isFinite_xy) h.yx_le h.xy_le
      (by norm_num) (by norm_num) (by norm_num)).mono (by norm_num)
  have hsize : |value m.xx * value m.yy - value m.yx * value m.xy| ≤ 8 := by
    have h₁ := abs_mul_le_mul h.xx_le h.yy_le
    have h₂ := abs_mul_le_mul h.yx_le h.xy_le
    have h₃ := abs_sub (value m.xx * value m.yy) (value m.yx * value m.xy)
    linarith
  refine (hfirst.sub (B := 9) hsecond ?_ (by norm_num) (by norm_num)).mono (by norm_num)
  norm_num at hsize ⊢
  linarith

theorem Regular.abs_factor_le (h : m.Regular L) : |1 / m.exactDet| ≤ 2 := by
  rw [abs_div, abs_one, div_le_iff₀ (lt_of_lt_of_le (by norm_num) h.det_ge)]
  linarith [h.det_ge]

theorem Regular.approx_factor (h : m.Regular L) :
    Approx (1.0 / m.det) (1 / m.exactDet) (72 / 2 ^ 53) := by
  have hone : Approx 1.0 1 0 := by
    have := Approx.self isFinite_one
    rwa [value_one] at this
  exact (hone.div (B := 3) h.approx_det h.det_ge (by norm_num) h.abs_factor_le (by norm_num)
    (by norm_num) (by norm_num)).mono (by norm_num)

theorem Regular.approx_entry (h : m.Regular L) {x : Float} (hx : x.isFinite = true)
    (hle : |value x| ≤ 2) :
    Approx (x * (1.0 / m.det)) (value x / m.exactDet) (149 / 2 ^ 53) := by
  rw [div_eq_mul_one_div (value x)]
  exact ((Approx.self hx).mul (B := 5) h.approx_factor hle h.abs_factor_le (by norm_num)
    (by norm_num) (by norm_num)).mono (by norm_num)

theorem Regular.approx_offset (h : m.Regular L) (hL : 1 ≤ L) (hL' : L ≤ 2 ^ 40)
    {x y z w : Float} (hx : x.isFinite = true) (hy : y.isFinite = true) (hz : z.isFinite = true)
    (hw : w.isFinite = true) (hx' : |value x| ≤ 2) (hy' : |value y| ≤ L) (hz' : |value z| ≤ 2)
    (hw' : |value w| ≤ L) :
    Approx ((x * y - z * w) * (1.0 / m.det))
      ((value x * value y - value z * value w) / m.exactDet) (316 * L / 2 ^ 53) := by
  have hfirst : Approx (x * y) (value x * value y) (2 * L / 2 ^ 53) :=
    ((Approx.self hx).mul (B := 2 * L) (Approx.self hy) hx' hy' (by linarith) (by linarith)
      (by linarith)).mono (by linarith)
  have hsecond : Approx (z * w) (value z * value w) (2 * L / 2 ^ 53) :=
    ((Approx.self hz).mul (B := 2 * L) (Approx.self hw) hz' hw' (by linarith) (by linarith)
      (by linarith)).mono (by linarith)
  have hsize : |value x * value y - value z * value w| ≤ 4 * L := by
    have h₁ := abs_mul_le_mul hx' hy'
    have h₂ := abs_mul_le_mul hz' hw'
    have h₃ := abs_sub (value x * value y) (value z * value w)
    linarith
  have hdiff := (hfirst.sub (B := 5 * L) hsecond (by linarith) (by linarith) (by linarith)).mono
    (show _ ≤ 9 * L / 2 ^ 53 by linarith)
  rw [div_eq_mul_one_div (value x * value y - value z * value w)]
  exact (hdiff.mul (B := 9 * L) h.approx_factor hsize h.abs_factor_le (by linarith) (by linarith)
    (by linarith)).mono (by linarith)

theorem approx_row {x y e₁ e₂ o : Float} {p₁ p₂ q : ℚ} (hL : 1 ≤ L) (hL' : L ≤ 2 ^ 40)
    (hx : x.isFinite = true) (hy : y.isFinite = true) (hx' : |value x| ≤ L) (hy' : |value y| ≤ L)
    (h₁ : Approx e₁ p₁ (149 / 2 ^ 53)) (h₂ : Approx e₂ p₂ (149 / 2 ^ 53))
    (ho : Approx o q (316 * L / 2 ^ 53)) (hp₁ : |p₁| ≤ 4) (hp₂ : |p₂| ≤ 4) (hq : |q| ≤ 8 * L) :
    Approx (e₁ * x + e₂ * y + o) (p₁ * value x + p₂ * value y + q) (L / 2 ^ 43) := by
  have hfirst := (h₁.mul (B := 5 * L) (Approx.self hx) hp₁ hx' (by linarith) (by linarith)
    (by linarith)).mono (show _ ≤ 154 * L / 2 ^ 53 by linarith)
  have hsecond := (h₂.mul (B := 5 * L) (Approx.self hy) hp₂ hy' (by linarith) (by linarith)
    (by linarith)).mono (show _ ≤ 154 * L / 2 ^ 53 by linarith)
  have hsize : |p₁ * value x + p₂ * value y| ≤ 8 * L := by
    have h₁ := abs_mul_le_mul hp₁ hx'
    have h₂ := abs_mul_le_mul hp₂ hy'
    have h₃ := abs_add_le (p₁ * value x) (p₂ * value y)
    linarith
  have hsum := (hfirst.add (B := 9 * L) hsecond (by linarith) (by linarith) (by linarith)).mono
    (show _ ≤ 317 * L / 2 ^ 53 by linarith)
  have hsize' := abs_add_le (p₁ * value x + p₂ * value y) q
  exact (hsum.add (B := 17 * L) ho (by linarith) (by linarith) (by linarith)).mono (by linarith)

theorem Regular.abs_div_det_le (h : m.Regular L) {p P : ℚ} (hp : |p| ≤ P) :
    |p / m.exactDet| ≤ P * 2 := by
  rw [div_eq_mul_one_div]
  exact abs_mul_le_mul hp h.abs_factor_le

theorem Regular.approx_preimage (h : m.Regular L) (hL : 1 ≤ L) (hL' : L ≤ 2 ^ 40) {i : Affine}
    (hi : m.invert? = some i) {p : Point} (hx : p.x.isFinite = true) (hy : p.y.isFinite = true)
    (hx' : |value p.x| ≤ L) (hy' : |value p.y| ≤ L) :
    Approx (i.apply p).x (m.preimage (value p.x, value p.y)).1 (L / 2 ^ 43) ∧
      Approx (i.apply p).y (m.preimage (value p.x, value p.y)).2 (L / 2 ^ 43) := by
  rw [invert?] at hi
  dsimp only at hi
  split_ifs at hi
  rw [Option.some.injEq] at hi
  subst hi
  have hneg {x : Float} {q : ℚ} (hx : |value x| ≤ q) : |value (-x)| ≤ q := by
    rwa [value_neg, abs_neg]
  have hneg' {x : Float} (hx : x.isFinite = true) : (-x).isFinite = true := by
    rwa [isFinite_neg]
  have hnumerator {a b c d : Float} (ha : |value a| ≤ 2) (hb : |value b| ≤ L)
      (hc : |value c| ≤ 2) (hd : |value d| ≤ L) :
      |value a * value b - value c * value d| ≤ 4 * L := by
    have h₁ := abs_mul_le_mul ha hb
    have h₂ := abs_mul_le_mul hc hd
    have h₃ := abs_sub (value a * value b) (value c * value d)
    linarith
  have hentry {x : Float} (hx : |value x| ≤ 2) : |value x / m.exactDet| ≤ 4 :=
    (h.abs_div_det_le hx).trans (by norm_num)
  constructor
  · have hrow := approx_row hL hL' hx hy hx' hy' (h.approx_entry h.isFinite_yy h.yy_le)
      (h.approx_entry (hneg' h.isFinite_xy) (hneg h.xy_le))
      (h.approx_offset hL hL' h.isFinite_xy h.isFinite_ty h.isFinite_yy h.isFinite_tx h.xy_le
        h.ty_le h.yy_le h.tx_le)
      (hentry h.yy_le) (hentry (hneg h.xy_le))
      ((h.abs_div_det_le (hnumerator h.xy_le h.ty_le h.yy_le h.tx_le)).trans (by linarith))
    have hvalue : (m.preimage (value p.x, value p.y)).1 =
        value m.yy / m.exactDet * value p.x + value (-m.xy) / m.exactDet * value p.y +
          (value m.xy * value m.ty - value m.yy * value m.tx) / m.exactDet := by
      simp only [preimage, value_neg]
      ring
    rw [hvalue]
    exact hrow
  · have hrow := approx_row hL hL' hx hy hx' hy'
      (h.approx_entry (hneg' h.isFinite_yx) (hneg h.yx_le))
      (h.approx_entry h.isFinite_xx h.xx_le)
      (h.approx_offset hL hL' h.isFinite_yx h.isFinite_tx h.isFinite_xx h.isFinite_ty h.yx_le
        h.tx_le h.xx_le h.ty_le)
      (hentry (hneg h.yx_le)) (hentry h.xx_le)
      ((h.abs_div_det_le (hnumerator h.yx_le h.tx_le h.xx_le h.ty_le)).trans (by linarith))
    have hvalue : (m.preimage (value p.x, value p.y)).2 =
        value (-m.yx) / m.exactDet * value p.x + value m.xx / m.exactDet * value p.y +
          (value m.yx * value m.tx - value m.xx * value m.ty) / m.exactDet := by
      simp only [preimage, value_neg]
      ring
    rw [hvalue]
    exact hrow

end Inverse

theorem Regular.approx_image {m : Affine} {L : ℚ} (h : m.Regular L) (hL : 1 ≤ L)
    (hL' : L ≤ 2 ^ 40) {p : Point} {q : ℚ × ℚ} (hx : Approx p.x q.1 (L / 2 ^ 53))
    (hy : Approx p.y q.2 (L / 2 ^ 53)) (hx' : |q.1| ≤ L) (hy' : |q.2| ≤ L) :
    Approx (m.apply p).x (m.image q).1 (L / 2 ^ 48) ∧
      Approx (m.apply p).y (m.image q).2 (L / 2 ^ 48) := by
  have row {e₁ e₂ o : Float} (h₁ : e₁.isFinite = true) (h₂ : e₂.isFinite = true)
      (ho : o.isFinite = true) (h₁' : |value e₁| ≤ 2) (h₂' : |value e₂| ≤ 2)
      (ho' : |value o| ≤ L) :
      Approx (e₁ * p.x + e₂ * p.y + o) (value e₁ * q.1 + value e₂ * q.2 + value o)
        (L / 2 ^ 48) := by
    have hfirst := ((Approx.self h₁).mul (B := 3 * L) hx h₁' hx' (by linarith) (by linarith)
      (by linarith)).mono (show _ ≤ 5 * L / 2 ^ 53 by linarith)
    have hsecond := ((Approx.self h₂).mul (B := 3 * L) hy h₂' hy' (by linarith) (by linarith)
      (by linarith)).mono (show _ ≤ 5 * L / 2 ^ 53 by linarith)
    have hsize : |value e₁ * q.1 + value e₂ * q.2| ≤ 4 * L := by
      have h₁ := abs_mul_le_mul h₁' hx'
      have h₂ := abs_mul_le_mul h₂' hy'
      have h₃ := abs_add_le (value e₁ * q.1) (value e₂ * q.2)
      linarith
    have hsum := (hfirst.add (B := 5 * L) hsecond (by linarith) (by linarith)
      (by linarith)).mono (show _ ≤ 15 * L / 2 ^ 53 by linarith)
    have hsize' := abs_add_le (value e₁ * q.1 + value e₂ * q.2) (value o)
    exact (hsum.add (B := 6 * L) (Approx.self ho) (by linarith) (by linarith)
      (by linarith)).mono (by linarith)
  exact ⟨row h.isFinite_xx h.isFinite_xy h.isFinite_tx h.xx_le h.xy_le h.tx_le,
    row h.isFinite_yx h.isFinite_yy h.isFinite_ty h.yx_le h.yy_le h.ty_le⟩

end PatternScript.Affine
