import PatternScript.Proofs.Plane.Accuracy

/-!
# Maps that count as shifts

A map counts as a shift although its linear part may differ from the identity by a small
tolerance. How far it then takes a position from where the shift takes it is that difference
times the distance from the origin, so far from the origin it may be many pixels.
-/
namespace PatternScript.Affine

open Number

/-- How far the entries of the linear part are from those of the identity at most. -/
def deviation (m : Affine) : ℚ :=
  max (max |value m.xx - 1| |value m.yx|) (max |value m.xy| |value m.yy - 1|)

theorem isFinite_and_value_tolerance :
    tolerance.isFinite = true ∧ value tolerance ≤ 11 / 10 ^ 10 := by
  have hunpack : tolerance.toModel.unpack =
      .finite .positive 4835703278458517 (-82) (by decide) := rfl
  refine ⟨rfl, ?_⟩
  rw [value, hunpack, Unpacked.value, Unpacked.signValue, one_mul]
  norm_num

section Matrices

variable {a b c d δ : ℚ}

theorem abs_det_sub_one_le (ha : |a - 1| ≤ δ) (hb : |b| ≤ δ) (hc : |c| ≤ δ) (hd : |d - 1| ≤ δ)
    (hδ : δ ≤ 1 / 1000) : |a * d - b * c - 1| ≤ 3 * δ := by
  have hδ0 : 0 ≤ δ := (abs_nonneg b).trans hb
  have hsplit : a * d - b * c - 1 = (a - 1) + (d - 1) + (a - 1) * (d - 1) - b * c := by ring
  have h₁ := abs_le.1 (abs_mul_le_mul ha hd)
  have h₂ := abs_le.1 (abs_mul_le_mul hb hc)
  have ha' := abs_le.1 ha
  have hd' := abs_le.1 hd
  have hsquare : δ * δ ≤ δ * (1 / 1000) := mul_le_mul_of_nonneg_left hδ hδ0
  rw [hsplit, abs_le]
  constructor <;> linarith

theorem abs_solution_sub_le (ha : |a - 1| ≤ δ) (hb : |b| ≤ δ) (hc : |c| ≤ δ) (hd : |d - 1| ≤ δ)
    (hδ : δ ≤ 1 / 1000) (u v : ℚ) :
    |(d * u - c * v) / (a * d - b * c) - u| ≤ 101 / 100 * δ * (|u| + |v|) := by
  have hδ0 : 0 ≤ δ := (abs_nonneg b).trans hb
  have hdet := (abs_le.1 (abs_det_sub_one_le ha hb hc hd hδ)).1
  have hpos : 99 / 100 < a * d - b * c := by linarith
  have hsplit : (d * u - c * v) / (a * d - b * c) - u =
      ((d - (a * d - b * c)) * u - c * v) / (a * d - b * c) := by
    rw [sub_mul, sub_right_comm, sub_div _ ((a * d - b * c) * u),
      mul_div_cancel_left₀ _ (by linarith)]
  have hfactor : |d - (a * d - b * c)| ≤ δ + 2 * δ * δ := by
    have hsplit' : d - (a * d - b * c) = -(a - 1) - (a - 1) * (d - 1) + b * c := by ring
    have h₁ := abs_le.1 (abs_mul_le_mul ha hd)
    have h₂ := abs_le.1 (abs_mul_le_mul hb hc)
    have ha' := abs_le.1 ha
    rw [hsplit', abs_le]
    constructor <;> linarith
  have hsquare : 2 * δ * δ ≤ 2 * δ * (1 / 1000) := mul_le_mul_of_nonneg_left hδ (by linarith)
  rw [hsplit, abs_div, abs_of_pos (by linarith : 0 < a * d - b * c), div_le_iff₀ (by linarith)]
  calc |(d - (a * d - b * c)) * u - c * v|
      ≤ (δ + 2 * δ * δ) * |u| + δ * |v| := by
        refine (abs_sub _ _).trans (add_le_add ?_ ?_)
        · exact abs_mul_le_mul hfactor le_rfl
        · exact abs_mul_le_mul hc le_rfl
    _ ≤ (δ + 2 * δ * (1 / 1000)) * (|u| + |v|) := by
        have hu : (δ + 2 * δ * δ) * |u| ≤ (δ + 2 * δ * (1 / 1000)) * |u| := by gcongr
        have hv : δ * |v| ≤ (δ + 2 * δ * (1 / 1000)) * |v| := by gcongr; linarith
        linarith
    _ = 101 / 100 * δ * (|u| + |v|) * (1002 / 1010) := by ring
    _ ≤ 101 / 100 * δ * (|u| + |v|) * (a * d - b * c) := by
        gcongr
        linarith

end Matrices

variable {m : Affine} {x y : Float} {δ : ℚ}

theorem abs_le_of_abs_lt_tolerance (h : x.abs < tolerance) :
    x.isFinite = true ∧ |value x| ≤ 11 / 10 ^ 10 := by
  have hx := isFinite_of_abs_lt h
  obtain ⟨hfinite, hvalue⟩ := isFinite_and_value_tolerance
  rw [lt_iff (by rwa [isFinite_abs]) hfinite, value_abs] at h
  exact ⟨hx, h.le.trans hvalue⟩

theorem abs_sub_le_of_abs_sub_lt_tolerance (h : (x - 1.0).abs < tolerance) :
    x.isFinite = true ∧ |value x - 1| ≤ 12 / 10 ^ 10 := by
  obtain ⟨hfinite, hle⟩ := abs_le_of_abs_lt_tolerance h
  obtain ⟨hx, hone⟩ := isFinite_of_sub hfinite
  have herror := ((rounded_sub hx hone).nearest_of_isFinite hfinite).error
  rw [show value 1.0 = 1 from value_one] at herror
  have htiny : (2 : ℚ) ^ (-1022 : Int) ≤ 1 / 10 ^ 12 := by
    refine (zpow_le_zpow_right₀ one_le_two (show (-1022 : Int) ≤ -40 by decide)).trans ?_
    norm_num
  have hpos := abs_nonneg (value x - 1)
  have hmax : max |value x - 1| (2 ^ (-1022 : Int)) ≤ |value x - 1| + 1 / 10 ^ 12 :=
    max_le (by linarith) (by linarith)
  have htriangle := abs_sub_abs_le_abs_sub (value x - 1) (value (x - 1.0))
  rw [abs_sub_comm (value x - 1) (value (x - 1.0))] at htriangle
  refine ⟨hx, ?_⟩
  generalize max |value x - 1| (2 ^ (-1022 : Int)) = size at *
  linarith

theorem deviation_le_of_isShift (h : m.isShift = true) :
    (m.xx.isFinite = true ∧ m.yx.isFinite = true ∧ m.xy.isFinite = true ∧ m.yy.isFinite = true) ∧
      m.deviation ≤ 12 / 10 ^ 10 := by
  simp only [isShift, Bool.and_eq_true, decide_eq_true_iff] at h
  obtain ⟨⟨⟨hxx, hyx⟩, hxy⟩, hyy⟩ := h
  obtain ⟨hfxx, hvxx⟩ := abs_sub_le_of_abs_sub_lt_tolerance hxx
  obtain ⟨hfyx, hvyx⟩ := abs_le_of_abs_lt_tolerance hyx
  obtain ⟨hfxy, hvxy⟩ := abs_le_of_abs_lt_tolerance hxy
  obtain ⟨hfyy, hvyy⟩ := abs_sub_le_of_abs_sub_lt_tolerance hyy
  have hle : (11 / 10 ^ 10 : ℚ) ≤ 12 / 10 ^ 10 := by norm_num
  exact ⟨⟨hfxx, hfyx, hfxy, hfyy⟩,
    max_le (max_le hvxx (hvyx.trans hle)) (max_le (hvxy.trans hle) hvyy)⟩

theorem deviation_shift (dx dy : Float) : (shift dx dy).deviation = 0 := by
  have hone : value 1 = 1 := value_one
  have hzero : value 0 = 0 := value_ofNat_zero
  simp only [deviation, shift, hone, hzero, sub_self, abs_zero, max_self]

theorem entries_le_of_deviation (h : m.deviation ≤ δ) : |value m.xx - 1| ≤ δ ∧
    |value m.yx| ≤ δ ∧ |value m.xy| ≤ δ ∧ |value m.yy - 1| ≤ δ := by
  rw [deviation, max_le_iff, max_le_iff, max_le_iff] at h
  exact ⟨h.1.1, h.1.2, h.2.1, h.2.2⟩

theorem abs_le_two_of_sub_one {q : ℚ} (h : |q - 1| ≤ 1 / 1000) : |q| ≤ 2 := by
  have h' := abs_le.1 h
  rw [abs_le]
  constructor <;> linarith

theorem regular_of_isShift {L : ℚ} (h : m.isShift = true) (htx : m.tx.isFinite = true)
    (hty : m.ty.isFinite = true) (htx' : |value m.tx| ≤ L) (hty' : |value m.ty| ≤ L) :
    m.Regular L := by
  obtain ⟨⟨hfxx, hfyx, hfxy, hfyy⟩, hdeviation⟩ := deviation_le_of_isShift h
  obtain ⟨hxx, hyx, hxy, hyy⟩ :=
    entries_le_of_deviation (hdeviation.trans (by norm_num : _ ≤ (1 / 1000 : ℚ)))
  have hdet := (abs_le.1 (abs_det_sub_one_le hxx hyx hxy hyy le_rfl)).1
  refine ⟨hfxx, hfyx, hfxy, hfyy, htx, hty, abs_le_two_of_sub_one hxx,
    hyx.trans (by norm_num), hxy.trans (by norm_num), abs_le_two_of_sub_one hyy, ?_, htx', hty'⟩
  refine le_trans ?_ (le_abs_self _)
  rw [exactDet]
  linarith

theorem abs_preimage_sub_le (h : m.deviation ≤ δ) (hδ : δ ≤ 1 / 1000) (p : ℚ × ℚ) :
    |(m.preimage p).1 - (p.1 - value m.tx)| ≤
        101 / 100 * δ * (|p.1 - value m.tx| + |p.2 - value m.ty|) ∧
      |(m.preimage p).2 - (p.2 - value m.ty)| ≤
        101 / 100 * δ * (|p.1 - value m.tx| + |p.2 - value m.ty|) := by
  obtain ⟨hxx, hyx, hxy, hyy⟩ := entries_le_of_deviation h
  refine ⟨abs_solution_sub_le hxx hyx hxy hyy hδ _ _, ?_⟩
  have hrow := abs_solution_sub_le hyy hxy hyx hxx hδ (p.2 - value m.ty) (p.1 - value m.tx)
  rw [mul_comm (value m.yy), mul_comm (value m.xy) (value m.yx), add_comm |p.2 - _|] at hrow
  exact hrow

end PatternScript.Affine
