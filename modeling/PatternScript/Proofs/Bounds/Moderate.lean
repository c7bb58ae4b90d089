import PatternScript.Proofs.Plane.Shifts
import PatternScript.Proofs.Sampling.Centers

/-!
# Moderate items

An item is moderate when its map neither stretches much nor nearly collapses and all its
lengths, scaled, stay below some ten thousand pixels. Doubles then place it on the screen, and
take the centers of pixels back to it, with errors far below a pixel.
-/
namespace PatternScript

open Number

/-- An item whose lengths on the screen leave doubles enough room for parts of a pixel. -/
structure Item.Moderate (item : Item) : Prop where
  inverse : item.matrix.invert? = some item.inverse
  regular : item.matrix.Regular (2 ^ 16)
  isFinite_scale : item.scale.isFinite = true
  one_le_scale : 1 ≤ value item.scale
  scale_le : value item.scale ≤ 2 ^ 15
  reach : ∀ key, |((item.param key).toInt : ℚ)| * value item.scale ≤ 2 ^ 15
  /-- A stamp has as many cells as it says, and covers its box if it is said to. -/
  stamp : ∀ p, item.stamp = some p → p.cells.size = p.width * p.height ∧
    p.width * value item.scale ≤ 2 ^ 15 ∧ p.height * value item.scale ≤ 2 ^ 15 ∧
      (item.isOpaque = true → item.shape = .stamp → p.isOpaque = true)

namespace Affine

variable {m : Affine} {L M : ℚ}

theorem Regular.mono (h : m.Regular L) (hle : L ≤ M) : m.Regular M :=
  { h with tx_le := h.tx_le.trans hle, ty_le := h.ty_le.trans hle }

theorem Regular.abs_image_sub_le (h : m.Regular L) {p q : ℚ × ℚ} {ε : ℚ} (h₁ : |p.1 - q.1| ≤ ε)
    (h₂ : |p.2 - q.2| ≤ ε) : |(m.image p).1 - (m.image q).1| ≤ 4 * ε ∧
      |(m.image p).2 - (m.image q).2| ≤ 4 * ε := by
  have row {a b : ℚ} (ha : |a| ≤ 2) (hb : |b| ≤ 2) :
      |a * (p.1 - q.1) + b * (p.2 - q.2)| ≤ 4 * ε := by
    have hsum := abs_add_le (a * (p.1 - q.1)) (b * (p.2 - q.2))
    linarith [abs_mul_le_mul ha h₁, abs_mul_le_mul hb h₂]
  have hfst : (m.image p).1 - (m.image q).1 =
      value m.xx * (p.1 - q.1) + value m.xy * (p.2 - q.2) := by
    simp only [image]
    ring
  have hsnd : (m.image p).2 - (m.image q).2 =
      value m.yx * (p.1 - q.1) + value m.yy * (p.2 - q.2) := by
    simp only [image]
    ring
  rw [hfst, hsnd]
  exact ⟨row h.xx_le h.xy_le, row h.yx_le h.yy_le⟩

theorem Regular.abs_image_sub_offset_le (h : m.Regular L) {p : ℚ × ℚ} {R : ℚ} (h₁ : |p.1| ≤ R)
    (h₂ : |p.2| ≤ R) : |(m.image p).1 - value m.tx| ≤ 4 * R ∧
      |(m.image p).2 - value m.ty| ≤ 4 * R := by
  have horigin : m.image (0, 0) = (value m.tx, value m.ty) := by
    simp only [image, mul_zero, add_zero, zero_add]
  rw [← sub_zero p.1] at h₁
  rw [← sub_zero p.2] at h₂
  have hsub := h.abs_image_sub_le (q := (0, 0)) h₁ h₂
  rwa [horigin] at hsub

theorem Regular.abs_preimage_le (h : m.Regular L) {p : ℚ × ℚ} {R : ℚ} (h₁ : |p.1 - value m.tx| ≤ R)
    (h₂ : |p.2 - value m.ty| ≤ R) : |(m.preimage p).1| ≤ 8 * R ∧ |(m.preimage p).2| ≤ 8 * R := by
  have row {a b u v : ℚ} (ha : |a| ≤ 2) (hb : |b| ≤ 2) (hu : |u| ≤ R) (hv : |v| ≤ R) :
      |(a * u - b * v) / m.exactDet| ≤ 8 * R := by
    have hdiff : |a * u - b * v| ≤ 4 * R := by
      have hsum := abs_sub (a * u) (b * v)
      linarith [abs_mul_le_mul ha hu, abs_mul_le_mul hb hv]
    linarith [h.abs_div_det_le hdiff]
  exact ⟨row h.yy_le h.xy_le h₁ h₂, row h.xx_le h.yx_le h₂ h₁⟩

end Affine

namespace Item

variable {item : Item} {x y : Int32} {p : Point}

/-- The map takes the scaled position near the center of the pixel. -/
def Lands (item : Item) (x y : Int32) (p : ℚ × ℚ) : Prop :=
  |(item.matrix.image p).1 - (x.toInt + 1 / 2)| ≤ 1 / 64 ∧
    |(item.matrix.image p).2 - (y.toInt + 1 / 2)| ≤ 1 / 64

def scaled (item : Item) (p : Point) : ℚ × ℚ :=
  (value p.x * value item.scale, value p.y * value item.scale)

theorem Moderate.approx_toScreen (h : item.Moderate) (hx : p.x.isFinite = true)
    (hy : p.y.isFinite = true) (hx' : |(item.scaled p).1| ≤ 2 ^ 17)
    (hy' : |(item.scaled p).2| ≤ 2 ^ 17) :
    Approx (item.toScreen p).x (item.matrix.image (item.scaled p)).1 (1 / 2 ^ 31) ∧
      Approx (item.toScreen p).y (item.matrix.image (item.scaled p)).2 (1 / 2 ^ 31) := by
  have hpos : 0 ≤ value item.scale := by linarith [h.one_le_scale]
  have coordinate {c : Float} (hc : c.isFinite = true)
      (hle : |value c * value item.scale| ≤ 2 ^ 17) :
      Approx (c * item.scale) (value c * value item.scale) (2 ^ 17 / 2 ^ 53) := by
    rw [abs_mul] at hle
    exact ((Approx.self hc).mul (B := 2 ^ 17) (Approx.self h.isFinite_scale) le_rfl le_rfl
      (by linarith) (by norm_num) (by norm_num)).mono (by linarith)
  have hregular := h.regular.mono (show (2 ^ 16 : ℚ) ≤ 2 ^ 17 by norm_num)
  obtain ⟨hfst, hsnd⟩ := hregular.approx_image (by norm_num) (by norm_num)
    (p := ⟨p.x * item.scale, p.y * item.scale⟩) (q := item.scaled p) (coordinate hx hx')
    (coordinate hy hy') hx' hy'
  exact ⟨hfst.mono (by norm_num), hsnd.mono (by norm_num)⟩

theorem Moderate.abs_div_mul_sub_le (h : item.Moderate) {c : Float} {q : ℚ}
    (hc : Approx c q (1 / 2 ^ 12)) (hq : |q| ≤ 2 ^ 36) : (c / item.scale).isFinite = true ∧
      |value (c / item.scale) * value item.scale - q| ≤ 1 / 2 ^ 11 := by
  have hs := h.one_le_scale
  have hpos : 0 < value item.scale := by linarith
  have hvalue : |value c| ≤ 2 ^ 37 := by linarith [hc.abs_value_le]
  have hquotient : |value c / value item.scale| ≤ 2 ^ 37 := by
    rw [abs_div, abs_of_pos hpos]
    exact (div_le_self (abs_nonneg _) hs).trans hvalue
  have hnear := (rounded_div hc.isFinite h.isFinite_scale hpos.ne').nearest
    (abs_lt_limit (hquotient.trans (by norm_num)))
  have hmax : max |value c / value item.scale| (2 ^ (-1022 : Int)) * value item.scale ≤ 2 ^ 37 := by
    have htiny : (2 : ℚ) ^ (-1022 : Int) ≤ 1 := zpow_le_one_of_nonpos₀ one_le_two (by decide)
    rw [max_mul_of_nonneg _ _ hpos.le, abs_div, abs_of_pos hpos, div_mul_cancel₀ _ hpos.ne']
    refine max_le hvalue ((mul_le_mul_of_nonneg_right htiny hpos.le).trans ?_)
    linarith [h.scale_le]
  have hback : |value (c / item.scale) * value item.scale - value c| ≤ 2 ^ 37 / 2 ^ 53 := by
    have hsplit : value (c / item.scale) * value item.scale - value c =
        (value (c / item.scale) - value c / value item.scale) * value item.scale := by
      rw [sub_mul, div_mul_cancel₀ _ hpos.ne']
    rw [hsplit, abs_mul, abs_of_pos hpos]
    calc |value (c / item.scale) - value c / value item.scale| * value item.scale
        ≤ max |value c / value item.scale| (2 ^ (-1022 : Int)) / 2 ^ 53 * value item.scale :=
          mul_le_mul_of_nonneg_right hnear.error hpos.le
      _ ≤ 2 ^ 37 / 2 ^ 53 := by
          rw [div_mul_eq_mul_div]
          gcongr
  have htriangle := abs_sub_le (value (c / item.scale) * value item.scale) (value c) q
  exact ⟨hnear.isFinite, by linarith [hc.error]⟩

theorem abs_center_sub_le (n : Int32) {t : ℚ} (ht : |t| ≤ 2 ^ 31) :
    |(n.toInt + 1 / 2 : ℚ) - t| ≤ 2 ^ 33 := by
  linarith [abs_sub (n.toInt + 1 / 2 : ℚ) t, abs_exactCenter_le n]

theorem Moderate.near_logicalCenter (h : item.Moderate) (x y : Int32) :
    ((item.logicalCenter x y).x.isFinite = true ∧ (item.logicalCenter x y).y.isFinite = true) ∧
      |(item.matrix.image (item.scaled (item.logicalCenter x y))).1 - (x.toInt + 1 / 2)| ≤ 1 / 512 ∧
      |(item.matrix.image (item.scaled (item.logicalCenter x y))).2 - (y.toInt + 1 / 2)| ≤
        1 / 512 := by
  have hregular := h.regular.mono (show (2 ^ 16 : ℚ) ≤ 2 ^ 31 by norm_num)
  obtain ⟨hx, hy⟩ := approx_unscaledCenter hregular le_rfl (by norm_num) h.inverse x y
  obtain ⟨hpx, hpy⟩ := hregular.abs_preimage_le (p := exactCenter x y)
    (abs_center_sub_le x hregular.tx_le) (abs_center_sub_le y hregular.ty_le)
  obtain ⟨hfx, hex⟩ := h.abs_div_mul_sub_le (hx.mono (by norm_num)) (hpx.trans (by norm_num))
  obtain ⟨hfy, hey⟩ := h.abs_div_mul_sub_le (hy.mono (by norm_num)) (hpy.trans (by norm_num))
  obtain ⟨h₁, h₂⟩ := h.regular.abs_image_sub_le (p := item.scaled (item.logicalCenter x y))
    (q := item.matrix.preimage (exactCenter x y)) hex hey
  rw [Affine.image_preimage h.regular.exactDet_ne_zero] at h₁ h₂
  exact ⟨⟨hfx, hfy⟩, h₁.trans (by norm_num), h₂.trans (by norm_num)⟩

theorem Moderate.lands_logicalCenter (h : item.Moderate) (x y : Int32) :
    (item.logicalCenter x y).x.isFinite = true ∧ (item.logicalCenter x y).y.isFinite = true ∧
      item.Lands x y (item.scaled (item.logicalCenter x y)) := by
  obtain ⟨⟨hfx, hfy⟩, hx, hy⟩ := h.near_logicalCenter x y
  exact ⟨hfx, hfy, hx.trans (by norm_num), hy.trans (by norm_num)⟩

theorem Moderate.abs_le_of_lands (h : item.Moderate) {p : ℚ × ℚ} (hland : item.Lands x y p) :
    |p.1| ≤ 2 ^ 37 ∧ |p.2| ≤ 2 ^ 37 := by
  have hregular := h.regular.mono (show (2 ^ 16 : ℚ) ≤ 2 ^ 31 by norm_num)
  have hx := abs_center_sub_le x hregular.tx_le
  have hy := abs_center_sub_le y hregular.ty_le
  have hx' := abs_sub_le (item.matrix.image p).1 (x.toInt + 1 / 2) (value item.matrix.tx)
  have hy' := abs_sub_le (item.matrix.image p).2 (y.toInt + 1 / 2) (value item.matrix.ty)
  obtain ⟨h₁, h₂⟩ := hregular.abs_preimage_le (p := item.matrix.image p) (R := 2 ^ 34)
    (by linarith [hland.1]) (by linarith [hland.2])
  rw [Affine.preimage_image hregular.exactDet_ne_zero] at h₁ h₂
  exact ⟨h₁.trans (by norm_num), h₂.trans (by norm_num)⟩

theorem Moderate.abs_value_logicalCenter_le (h : item.Moderate) (x y : Int32) :
    |value (item.logicalCenter x y).x| ≤ 2 ^ 37 ∧ |value (item.logicalCenter x y).y| ≤ 2 ^ 37 := by
  obtain ⟨-, -, hland⟩ := h.lands_logicalCenter x y
  have unscaled {c : ℚ} (hc : |c * value item.scale| ≤ 2 ^ 37) : |c| ≤ 2 ^ 37 := by
    rw [abs_mul] at hc
    exact (le_mul_of_one_le_right (abs_nonneg _) (h.one_le_scale.trans (le_abs_self _))).trans hc
  obtain ⟨hx, hy⟩ := h.abs_le_of_lands hland
  exact ⟨unscaled hx, unscaled hy⟩

theorem abs_image_sub_moved_le (h : item.matrix.isShift = true) {p : ℚ × ℚ} (hu : |p.1| ≤ 2 ^ 20)
    (hv : |p.2| ≤ 2 ^ 20) :
    |(item.matrix.image p).1 - (p.1 + value item.matrix.tx)| ≤ 1 / 64 ∧
      |(item.matrix.image p).2 - (p.2 + value item.matrix.ty)| ≤ 1 / 64 := by
  obtain ⟨hxx, hyx, hxy, hyy⟩ :=
    Affine.entries_le_of_deviation (Affine.deviation_le_of_isShift h).2
  have row {a b : ℚ} (ha : |a| ≤ 12 / 10 ^ 10) (hb : |b| ≤ 12 / 10 ^ 10) :
      |a * p.1 + b * p.2| ≤ 1 / 64 := by
    have hsum := abs_add_le (a * p.1) (b * p.2)
    linarith [Affine.abs_mul_le_mul ha hu, Affine.abs_mul_le_mul hb hv]
  have hfst : (item.matrix.image p).1 - (p.1 + value item.matrix.tx) =
      (value item.matrix.xx - 1) * p.1 + value item.matrix.xy * p.2 := by
    simp only [Affine.image]
    ring
  have hsnd : (item.matrix.image p).2 - (p.2 + value item.matrix.ty) =
      value item.matrix.yx * p.1 + (value item.matrix.yy - 1) * p.2 := by
    simp only [Affine.image]
    ring
  rw [hfst, hsnd]
  exact ⟨row hxx hxy, row hyx hyy⟩

end Item

end PatternScript
