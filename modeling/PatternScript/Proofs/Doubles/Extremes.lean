import Mathlib.Algebra.Order.Group.MinMax
import PatternScript.Proofs.Doubles.Errors

/-!
# Minima, maxima and infinity

Among finite doubles the lesser and the greater one are the minimum and the maximum. Infinity
is beyond each of them, so it starts a search for either.
-/
namespace PatternScript.Number

open Float.Model Float.Model.UnpackedFloat Unpacked

variable {x y : Float}

theorem isNaN_of_isFinite (hx : x.isFinite = true) : x.isNaN = false := by
  change x.toModel.unpack.isFinite = true at hx
  change x.toModel.unpack.isNaN = false
  generalize x.toModel.unpack = u at *
  cases u with
  | notANumber => cases hx
  | infinity s => rfl
  | zero s => rfl
  | finite s m e hm => rfl

theorem isFinite_and_value_least (hx : x.isFinite = true) (hy : y.isFinite = true) :
    (least x y).isFinite = true ∧ value (least x y) = min (value x) (value y) := by
  rw [least, isNaN_of_isFinite hx, isNaN_of_isFinite hy, if_neg Bool.false_ne_true,
    if_neg Bool.false_ne_true]
  split_ifs with h
  · exact ⟨hy, (min_eq_right ((lt_iff hy hx).1 h).le).symm⟩
  · exact ⟨hx, (min_eq_left (not_lt.1 (mt (lt_iff hy hx).2 h))).symm⟩

theorem isFinite_and_value_greatest (hx : x.isFinite = true) (hy : y.isFinite = true) :
    (greatest x y).isFinite = true ∧ value (greatest x y) = max (value x) (value y) := by
  rw [greatest, isNaN_of_isFinite hx, isNaN_of_isFinite hy, if_neg Bool.false_ne_true,
    if_neg Bool.false_ne_true]
  split_ifs with h
  · exact ⟨hy, (max_eq_right ((lt_iff hx hy).1 h).le).symm⟩
  · exact ⟨hx, (max_eq_left (not_lt.1 (mt (lt_iff hx hy).2 h))).symm⟩

theorem Approx.greatest {q ε : ℚ} (h : Approx x q ε) (hy : y.isFinite = true) :
    Approx (greatest x y) (max q (value y)) ε := by
  obtain ⟨hfinite, hvalue⟩ := isFinite_and_value_greatest h.isFinite hy
  refine ⟨hfinite, ?_⟩
  rw [hvalue]
  exact (abs_max_sub_max_le_abs _ _ _).trans h.error

theorem unpack_infinity : infinity.toModel.unpack = .infinity .positive := rfl

theorem unpack_neg_infinity : (-infinity).toModel.unpack = .infinity .negative := rfl

theorem least_infinity (hx : x.isFinite = true) : least infinity x = x := by
  have hlt : x < infinity := by
    have hfinite := finite_unpack hx
    rw [lt_def, unpack_infinity]
    generalize x.toModel.unpack = u at *
    rcases hfinite with s | ⟨s, m, e, hm, hc⟩ <;> rfl
  rw [least, show infinity.isNaN = false from rfl, isNaN_of_isFinite hx,
    if_neg Bool.false_ne_true, if_neg Bool.false_ne_true, if_pos hlt]

theorem greatest_neg_infinity (hx : x.isFinite = true) : greatest (-infinity) x = x := by
  have hlt : -infinity < x := by
    have hfinite := finite_unpack hx
    rw [lt_def, unpack_neg_infinity]
    generalize x.toModel.unpack = u at *
    rcases hfinite with s | ⟨s, m, e, hm, hc⟩ <;> rfl
  rw [greatest, show (-infinity).isNaN = false from rfl, isNaN_of_isFinite hx,
    if_neg Bool.false_ne_true, if_neg Bool.false_ne_true, if_pos hlt]

end PatternScript.Number
