import PatternScript.Proofs.Bounds.Discs
import PatternScript.Proofs.Doubles.Integers

/-!
# Filled circles

A filled circle paints the pixels whose centers come from its disc. Squaring the distances loses
a part of the squared radius that is far smaller than what the boxes around the center spare.
-/
namespace PatternScript

open Number

namespace Number

variable {u v r : Float} {A B M : ℚ}

theorem approx_sq_add_sq (hu : Approx u A (M / 2 ^ 53)) (hv : Approx v B (M / 2 ^ 53))
    (hA : |A| ≤ M) (hB : |B| ≤ M) (hM : 1 ≤ M) (hM' : M ≤ 2 ^ 40) :
    Approx (u * u + v * v) (A ^ 2 + B ^ 2) (M ^ 2 / 2 ^ 49) := by
  have hMM : 1 ≤ M ^ 2 := one_le_pow₀ hM
  have hMM' : M ^ 2 ≤ (2 ^ 40) ^ 2 := pow_le_pow_left₀ (by linarith) hM' 2
  have square {z : Float} {q : ℚ} (hz : Approx z q (M / 2 ^ 53)) (hq : |q| ≤ M) :
      Approx (z * z) (q ^ 2) (5 * M ^ 2 / 2 ^ 53) := by
    rw [sq q]
    exact (hz.mul (B := 2 * M ^ 2) hz hq hq (by linarith) (by linarith) (by linarith)).mono
      (by linarith)
  have hsum : |A ^ 2 + B ^ 2| ≤ 2 * M ^ 2 := by
    have hAA : A ^ 2 ≤ M ^ 2 := sq_le_sq' (abs_le.1 hA).1 (abs_le.1 hA).2
    have hBB : B ^ 2 ≤ M ^ 2 := sq_le_sq' (abs_le.1 hB).1 (abs_le.1 hB).2
    rw [abs_of_nonneg (by positivity)]
    linarith
  exact ((square hu hA).add (B := 3 * M ^ 2) (square hv hB) (by linarith) (by linarith)
    (by linarith)).mono (by linarith)

theorem sq_add_sq_le_of_le {R : ℚ} (hu : Nearest u A) (hv : Nearest v B) (hA : |A| ≤ 2 ^ 40)
    (hB : |B| ≤ 2 ^ 40) (hR : 1 ≤ R) (hR' : R ≤ 2 ^ 40) (h : value (u * u + v * v) ≤ R ^ 2) :
    A ^ 2 + B ^ 2 ≤ R ^ 2 * (1 + 1 / 2 ^ 40) := by
  obtain ⟨M, hM⟩ : ∃ M, M = max (max |A| |B|) R := ⟨_, rfl⟩
  have hRM : R ≤ M := hM ▸ le_max_right _ _
  have hAM : |A| ≤ M := hM ▸ (le_max_left _ _).trans (le_max_left _ _)
  have hBM : |B| ≤ M := hM ▸ (le_max_right _ _).trans (le_max_left _ _)
  have hM' : M ≤ 2 ^ 40 := hM ▸ max_le (max_le hA hB) hR'
  have herror := abs_le.1
    (approx_sq_add_sq (.of_nearest hu hAM (hR.trans hRM)) (.of_nearest hv hBM (hR.trans hRM)) hAM
      hBM (hR.trans hRM) hM').error
  -- The greatest of the three lengths is not much greater than the radius.
  have hMR : M ^ 2 ≤ R ^ 2 + M ^ 2 / 2 ^ 49 := by
    rcases max_choice (max |A| |B|) R with hmax | hmax
    · rcases max_choice |A| |B| with hmax' | hmax'
      · have hMA : M ^ 2 = A ^ 2 := by rw [hM, hmax, hmax', sq_abs]
        linarith [sq_nonneg B]
      · have hMB : M ^ 2 = B ^ 2 := by rw [hM, hmax, hmax', sq_abs]
        linarith [sq_nonneg A]
    · have hMR : M = R := by rw [hM, hmax]
      rw [hMR]
      linarith [sq_nonneg R]
  linarith [sq_nonneg R]

theorem le_of_sq_add_sq_le {R : ℚ} (hu : Nearest u A) (hv : Nearest v B) (hR : 1 ≤ R)
    (hR' : R ≤ 2 ^ 40) (h : A ^ 2 + B ^ 2 ≤ R ^ 2 * (1 - 1 / 2 ^ 40)) :
    (u * u + v * v).isFinite = true ∧ value (u * u + v * v) ≤ R ^ 2 := by
  have hAR : |A| ≤ R := abs_le_of_sq_le_sq (by linarith [sq_nonneg B, sq_nonneg R]) (by linarith)
  have hBR : |B| ≤ R := abs_le_of_sq_le_sq (by linarith [sq_nonneg A, sq_nonneg R]) (by linarith)
  have hnear := approx_sq_add_sq (.of_nearest hu hAR hR) (.of_nearest hv hBR hR) hAR hBR hR hR'
  exact ⟨hnear.isFinite, by linarith [(abs_le.1 hnear.error).2, sq_nonneg R]⟩

end Number

namespace Item

variable {item : Item} {width height x y : Int32}

theorem value_mul_self {c : Float} {s : ℚ} (hc : Short c s) (hs : 1 ≤ s) :
    (c * c).isFinite = true ∧ value (c * c) = value c ^ 2 := by
  obtain ⟨n, hn⟩ := hc.whole
  have hle := hc.abs_value_le hs
  have hlt : |n * n| < 2 ^ 53 := by
    rw [hn] at hle
    have hle' : |n| ≤ 2 ^ 15 := by exact_mod_cast hle
    rw [abs_mul]
    exact (mul_le_mul hle' hle' (abs_nonneg _) (by norm_num)).trans_lt (by norm_num)
  have h := rounded_mul hc.isFinite hc.isFinite
  rw [hn, ← Int.cast_mul] at h
  have hnear := h.nearest (abs_intCast_lt_limit hlt)
  exact ⟨hnear.isFinite, by rw [hnear.eq_intCast hlt, hn, Int.cast_mul, sq]⟩

def centerScaled (item : Item) : ℚ × ℚ := item.scaled ⟨item.coordinate "X", item.coordinate "Y"⟩

def fromCenter (item : Item) (x y : Int32) : ℚ × ℚ :=
  (value (item.logicalCenter x y).x - value (item.coordinate "X"),
    value (item.logicalCenter x y).y - value (item.coordinate "Y"))

theorem lengthSq_fromCenter (item : Item) (x y : Int32) :
    Affine.lengthSq ((item.scaled (item.logicalCenter x y)).1 - item.centerScaled.1,
        (item.scaled (item.logicalCenter x y)).2 - item.centerScaled.2) =
      ((item.fromCenter x y).1 ^ 2 + (item.fromCenter x y).2 ^ 2) * value item.scale ^ 2 := by
  simp only [Affine.lengthSq, scaled, centerScaled, fromCenter]
  ring

theorem Moderate.nearest_fromCenter (h : item.Moderate) (x y : Int32) :
    (Nearest ((item.logicalCenter x y).x - item.coordinate "X") (item.fromCenter x y).1 ∧
        |(item.fromCenter x y).1| ≤ 2 ^ 40) ∧
      Nearest ((item.logicalCenter x y).y - item.coordinate "Y") (item.fromCenter x y).2 ∧
        |(item.fromCenter x y).2| ≤ 2 ^ 40 := by
  obtain ⟨hfx, hfy, -⟩ := h.lands_logicalCenter x y
  obtain ⟨hx, hy⟩ := h.abs_value_logicalCenter_le x y
  have side {z c : Float} (hz : z.isFinite = true) (hz' : |value z| ≤ 2 ^ 37)
      (hc : Short c (value item.scale)) :
      Nearest (z - c) (value z - value c) ∧ |value z - value c| ≤ 2 ^ 40 := by
    have hle : |value z - value c| ≤ 2 ^ 40 := by
      linarith [abs_sub (value z) (value c), hc.abs_value_le h.one_le_scale]
    exact ⟨(rounded_sub hz hc.isFinite).nearest (abs_lt_limit (hle.trans (by norm_num))), hle⟩
  exact ⟨side hfx hx (h.short_coordinate "X"), side hfy hy (h.short_coordinate "Y")⟩

def inDisc (item : Item) (q : Point) : Prop :=
  (q.x - item.coordinate "X") * (q.x - item.coordinate "X") +
    (q.y - item.coordinate "Y") * (q.y - item.coordinate "Y") ≤
      item.coordinate "RADIUS" * item.coordinate "RADIUS"

theorem paint_fillCircleMarks_iff (hpos : ¬ item.coordinate "RADIUS" ≤ 0) :
    Mark.Paint width height x y (item.fillCircleMarks (.ofSize width height)) ↔
      (Rect.ofSize width height).contains x y = true ∧ item.inDisc (item.logicalCenter x y) := by
  rw [fillCircleMarks, if_neg hpos, paint_sample_iff]
  simp only [Option.isSome_ite, inDisc]

theorem Moderate.one_le_radius (h : item.Moderate) (hpos : ¬ item.coordinate "RADIUS" ≤ 0) :
    1 ≤ value (item.coordinate "RADIUS") ∧
      1 ≤ value (item.coordinate "RADIUS") * value item.scale ∧
        value (item.coordinate "RADIUS") * value item.scale ≤ 2 ^ 15 := by
  have hshort := h.short_coordinate "RADIUS"
  rw [le_iff hshort.isFinite rfl, value_ofNat_zero, not_le] at hpos
  have hone := hshort.one_le hpos
  exact ⟨hone, one_le_mul_of_one_le_of_one_le hone h.one_le_scale,
    (abs_le.1 (hshort.abs_mul_le h.one_le_scale)).2⟩

theorem Moderate.lengthSq_le_of_inDisc (h : item.Moderate)
    (hpos : ¬ item.coordinate "RADIUS" ≤ 0) (hin : item.inDisc (item.logicalCenter x y)) :
    Affine.lengthSq ((item.scaled (item.logicalCenter x y)).1 - item.centerScaled.1,
        (item.scaled (item.logicalCenter x y)).2 - item.centerScaled.2) ≤
      (value (item.coordinate "RADIUS") * value item.scale) ^ 2 * (1 + 1 / 2 ^ 40) := by
  have hshort := h.short_coordinate "RADIUS"
  obtain ⟨hone, -, -⟩ := h.one_le_radius hpos
  have hradius := (abs_le.1 (hshort.abs_value_le h.one_le_scale)).2
  obtain ⟨⟨hu, hA⟩, hv, hB⟩ := h.nearest_fromCenter x y
  obtain ⟨hfinite, hsquare⟩ := value_mul_self hshort h.one_le_scale
  have hsum := approx_sq_add_sq (.of_nearest hu hA (by norm_num)) (.of_nearest hv hB (by norm_num))
    hA hB (by norm_num) (by norm_num)
  rw [inDisc, le_iff hsum.isFinite hfinite, hsquare] at hin
  have hdisc := sq_add_sq_le_of_le hu hv hA hB hone (by linarith) hin
  rw [lengthSq_fromCenter, mul_pow]
  linarith [mul_le_mul_of_nonneg_right hdisc (sq_nonneg (value item.scale))]

theorem Moderate.inDisc_of_lengthSq_le (h : item.Moderate)
    (hpos : ¬ item.coordinate "RADIUS" ≤ 0)
    (hdisc : Affine.lengthSq ((item.scaled (item.logicalCenter x y)).1 - item.centerScaled.1,
        (item.scaled (item.logicalCenter x y)).2 - item.centerScaled.2) ≤
      (value (item.coordinate "RADIUS") * value item.scale - 1 / 1024) ^ 2) :
    item.inDisc (item.logicalCenter x y) := by
  have hshort := h.short_coordinate "RADIUS"
  obtain ⟨hone, hreach, hreach'⟩ := h.one_le_radius hpos
  have hs := h.one_le_scale
  have hradius := (abs_le.1 (hshort.abs_value_le hs)).2
  obtain ⟨⟨hu, -⟩, hv, -⟩ := h.nearest_fromCenter x y
  obtain ⟨hfinite, hsquare⟩ := value_mul_self hshort hs
  rw [lengthSq_fromCenter] at hdisc
  -- A part of a pixel is more than the errors of the squares, even where the radius is greatest.
  have hroom : (value (item.coordinate "RADIUS") * value item.scale - 1 / 1024) ^ 2 ≤
      (value (item.coordinate "RADIUS") * value item.scale) ^ 2 * (1 - 1 / 2 ^ 40) := by
    have hsq := mul_le_mul hreach' hreach' (by linarith) (by norm_num)
    generalize value (item.coordinate "RADIUS") * value item.scale = R at *
    linarith
  have hle : (item.fromCenter x y).1 ^ 2 + (item.fromCenter x y).2 ^ 2 ≤
      value (item.coordinate "RADIUS") ^ 2 * (1 - 1 / 2 ^ 40) := by
    refine le_of_mul_le_mul_right ?_ (show 0 < value item.scale ^ 2 by positivity)
    rw [mul_pow] at hroom
    linarith
  obtain ⟨hfinite', hsum⟩ := le_of_sq_add_sq_le hu hv hone (by linarith) hle
  rw [inDisc, le_iff hfinite' hfinite, hsquare]
  exact hsum

section Boxes

variable {q : ℚ × ℚ}

def circleBox (item : Item) : ExactBox :=
  .around item.center (greatest (item.coordinate "RADIUS" * item.scale * item.matrix.stretch.2) 1)

def discBox (item : Item) : ExactBox :=
  .around item.center (item.coordinate "RADIUS" * item.scale * item.matrix.stretch.1 / sqrtTwo)

def circleReach (item : Item) : ℚ :=
  max (value (item.coordinate "RADIUS") * value item.scale * value item.matrix.stretch.2) 1

theorem Moderate.approx_circleCenter (h : item.Moderate) :
    (Approx item.center.x (item.matrix.image item.centerScaled).1 (1 / 2 ^ 20) ∧
      Approx item.center.y (item.matrix.image item.centerScaled).2 (1 / 2 ^ 20)) ∧
    |(item.matrix.image item.centerScaled).1| ≤ 2 ^ 20 ∧
      |(item.matrix.image item.centerScaled).2| ≤ 2 ^ 20 := by
  have hs := h.one_le_scale
  exact h.approx_center (p := ⟨item.coordinate "X", item.coordinate "Y"⟩) (isFinite_ofInt32 _)
    (isFinite_ofInt32 _) (((h.short_coordinate "X").abs_mul_le hs).trans (by norm_num))
    (((h.short_coordinate "Y").abs_mul_le hs).trans (by norm_num))

theorem Moderate.circleReach_le (h : item.Moderate) : item.circleReach ≤ 2 ^ 18 := by
  obtain ⟨-, -, hstretched⟩ := h.regular.stretched
  have hhi := hstretched.hi_bounds
  have hreach := Affine.abs_mul_le_mul
    ((h.short_coordinate "RADIUS").abs_mul_le h.one_le_scale)
    (show |value item.matrix.stretch.2| ≤ 5 by rw [abs_of_nonneg (by linarith)]; exact hhi.2)
  exact max_le (by linarith [(abs_le.1 hreach).2]) (by norm_num)

theorem Moderate.isAround_circleBox (h : item.Moderate) :
    item.circleBox.IsAround (item.matrix.image item.centerScaled) item.circleReach := by
  obtain ⟨-, hfinite, hstretched⟩ := h.regular.stretched
  have hhi := hstretched.hi_bounds
  obtain ⟨⟨hx, hy⟩, hfar, hfar'⟩ := h.approx_circleCenter
  have hreach := (h.approx_stretched (h.short_coordinate "RADIUS") hfinite
    (by rw [abs_of_nonneg (by linarith)]; exact hhi.2)).greatest isFinite_one
  rw [value_one] at hreach
  refine ExactBox.isAround hx hy (hreach.mono (by norm_num)) hfar hfar' ?_
  have hpos : 1 ≤ item.circleReach := le_max_right _ _
  rw [abs_of_nonneg (by linarith)]
  exact h.circleReach_le.trans (by norm_num)

theorem Moderate.isAround_discBox (h : item.Moderate) :
    item.discBox.IsAround (item.matrix.image item.centerScaled)
      (value (item.coordinate "RADIUS") * value item.scale * value item.matrix.stretch.1 /
        value sqrtTwo) := by
  obtain ⟨hfinite, -, hstretched⟩ := h.regular.stretched
  have hlo := hstretched.lo_bounds
  obtain ⟨⟨hx, hy⟩, hfar, hfar'⟩ := h.approx_circleCenter
  obtain ⟨⟨hsquare, hsize⟩, -⟩ := h.approx_square (h.short_coordinate "RADIUS") hfinite
    (by rw [abs_of_nonneg (by linarith)]; exact hlo.2)
  exact ExactBox.isAround hx hy hsquare hfar hfar' hsize

theorem Moderate.abs_image_sub_le_of_disc (h : item.Moderate)
    (hpos : ¬ item.coordinate "RADIUS" ≤ 0)
    (hdisc : Affine.lengthSq (q.1 - item.centerScaled.1, q.2 - item.centerScaled.2) ≤
      (value (item.coordinate "RADIUS") * value item.scale) ^ 2 * (1 + 1 / 2 ^ 40)) :
    |(item.matrix.image q).1 - (item.matrix.image item.centerScaled).1| ≤
        item.circleReach + 1 / 8 ∧
      |(item.matrix.image q).2 - (item.matrix.image item.centerScaled).2| ≤
        item.circleReach + 1 / 8 := by
  obtain ⟨-, -, hstretched⟩ := h.regular.stretched
  obtain ⟨-, hreach, hreach'⟩ := h.one_le_radius hpos
  obtain ⟨hx, hy⟩ := hstretched.abs_image_sub_le_of_disc hreach hreach' hdisc
  have hle : value (item.coordinate "RADIUS") * value item.scale * value item.matrix.stretch.2 ≤
      item.circleReach := le_max_left _ _
  exact ⟨hx.trans (by linarith), hy.trans (by linarith)⟩

theorem Moderate.contains_of_paint_fillCircleMarks (h : item.Moderate)
    (hpos : ¬ item.coordinate "RADIUS" ≤ 0)
    (hpaint : Mark.Paint width height x y (item.fillCircleMarks (.ofSize width height))) :
    (item.circleBox.outerRect 0).contains x y = true := by
  obtain ⟨hon, hin⟩ := (paint_fillCircleMarks_iff hpos).1 hpaint
  obtain ⟨-, -, hland⟩ := h.lands_logicalCenter x y
  obtain ⟨hx, hy⟩ := h.abs_image_sub_le_of_disc hpos (h.lengthSq_le_of_inDisc hpos hin)
  have hx' := abs_sub_le (x.toInt + 1 / 2 : ℚ)
    (item.matrix.image (item.scaled (item.logicalCenter x y))).1
    (item.matrix.image item.centerScaled).1
  have hy' := abs_sub_le (y.toInt + 1 / 2 : ℚ)
    (item.matrix.image (item.scaled (item.logicalCenter x y))).2
    (item.matrix.image item.centerScaled).2
  obtain ⟨hland₁, hland₂⟩ := hland
  rw [abs_sub_comm] at hland₁ hland₂
  exact h.isAround_circleBox.contains_outerRect le_rfl hon (by linarith) (by linarith)

theorem Moderate.paint_fillCircleMarks_of_contains (h : item.Moderate)
    (hpos : ¬ item.coordinate "RADIUS" ≤ 0)
    (hon : (Rect.ofSize width height).contains x y = true)
    (hin : item.discBox.innerRect.contains x y = true) :
    Mark.Paint width height x y (item.fillCircleMarks (.ofSize width height)) := by
  obtain ⟨-, hreach, hreach'⟩ := h.one_le_radius hpos
  obtain ⟨-, -, hland⟩ := h.lands_logicalCenter x y
  have hdisc := h.lengthSq_le_of_innerRect h.isAround_discBox rfl (by linarith) hreach' hland hon
    hin
  exact (paint_fillCircleMarks_iff hpos).2 ⟨hon, h.inDisc_of_lengthSq_le hpos hdisc⟩

end Boxes

end Item

end PatternScript
