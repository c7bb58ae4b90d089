import PatternScript.Proofs.Doubles.Extremes
import PatternScript.Proofs.Doubles.Integers
import PatternScript.Proofs.Rectangles
import PatternScript.Raster.Bounds

/-!
# Exact boxes and the pixels in them

The outer rectangle of a box holds each pixel whose center is not a quarter of a pixel outside,
and a pixel of the inner one lies in the box completely. What saturates in between does so
beyond every surface.
-/
namespace PatternScript

open Number

namespace ExactBox

variable {e : ExactBox} {width height x y slack : Int32}

theorem isFinite_iff : e.isFinite = true ↔ (e.minX.isFinite = true ∧ e.maxX.isFinite = true) ∧
    e.minY.isFinite = true ∧ e.maxY.isFinite = true := by
  simp only [isFinite, Bool.and_eq_true, and_assoc]

theorem floor_le_of_center {v : ℚ} {n : Int} (h : v - 1 / 4 ≤ n + 1 / 2) : ⌊v⌋ ≤ n := by
  rw [← Int.lt_add_one_iff, Int.floor_lt]
  push_cast
  linarith

theorem lt_ceil_of_center {v : ℚ} {n : Int} (h : n + 1 / 2 ≤ v + 1 / 4) : n < ⌈v⌉ := by
  rw [Int.lt_ceil]
  linarith

theorem contains_outerRect (he : e.isFinite = true) (hslack : 0 ≤ slack.toInt)
    (hon : (Rect.ofSize width height).contains x y = true)
    (hx : ⌊value e.minX⌋ ≤ x.toInt ∧ x.toInt < ⌈value e.maxX⌉ + slack.toInt)
    (hy : ⌊value e.minY⌋ ≤ y.toInt ∧ y.toInt < ⌈value e.maxY⌉ + slack.toInt) :
    (e.outerRect slack).contains x y = true := by
  obtain ⟨⟨hminX, hmaxX⟩, hminY, hmaxY⟩ := isFinite_iff.1 he
  have hwidth := Words.bounds width
  have hheight := Words.bounds height
  rw [Rect.contains_ofSize] at hon
  rw [Rect.contains_iff]
  simp only [outerRect, Words.toInt_saturatingAdd, Rounding.toInt_toInt32 hminX,
    Rounding.toInt_toInt32 hmaxX, Rounding.toInt_toInt32 hminY, Rounding.toInt_toInt32 hmaxY,
    Rounding.whole]
  omega

theorem contains_outerRect_of_center (he : e.isFinite = true) (hslack : 0 ≤ slack.toInt)
    (hon : (Rect.ofSize width height).contains x y = true)
    (hx : value e.minX - 1 / 4 ≤ x.toInt + 1 / 2 ∧ (x.toInt + 1 / 2 : ℚ) ≤ value e.maxX + 1 / 4)
    (hy : value e.minY - 1 / 4 ≤ y.toInt + 1 / 2 ∧ (y.toInt + 1 / 2 : ℚ) ≤ value e.maxY + 1 / 4) :
    (e.outerRect slack).contains x y = true := by
  have hxmax := lt_ceil_of_center hx.2
  have hymax := lt_ceil_of_center hy.2
  exact contains_outerRect he hslack hon ⟨floor_le_of_center hx.1, by omega⟩
    ⟨floor_le_of_center hy.1, by omega⟩

theorem of_contains_innerRect (he : e.isFinite = true)
    (hon : (Rect.ofSize width height).contains x y = true)
    (h : e.innerRect.contains x y = true) :
    (value e.minX ≤ x.toInt ∧ (x.toInt + 1 : ℚ) ≤ value e.maxX) ∧
      value e.minY ≤ y.toInt ∧ (y.toInt + 1 : ℚ) ≤ value e.maxY := by
  obtain ⟨⟨hminX, hmaxX⟩, hminY, hmaxY⟩ := isFinite_iff.1 he
  have hwidth := Words.bounds width
  have hheight := Words.bounds height
  rw [Rect.contains_ofSize] at hon
  rw [Rect.contains_iff] at h
  simp only [innerRect, Rounding.toInt_toInt32 hminX, Rounding.toInt_toInt32 hmaxX,
    Rounding.toInt_toInt32 hminY, Rounding.toInt_toInt32 hmaxY, Rounding.whole] at h
  have hle {v : ℚ} {n : Int} (h : ⌈v⌉ ≤ n) : v ≤ n := Int.ceil_le.1 h
  have hge {v : ℚ} {n : Int} (h : n < ⌊v⌋) : (n + 1 : ℚ) ≤ v := by
    have := Int.le_floor.1 (Int.add_one_le_of_lt h)
    exact_mod_cast this
  exact ⟨⟨hle (by omega), hge (by omega)⟩, hle (by omega), hge (by omega)⟩

end ExactBox

def Point.isFinite (p : Point) : Bool := p.x.isFinite && p.y.isFinite

namespace ExactBox

variable {e : ExactBox} {p : Point} {ps done : List Point} {f : Point → ℚ}

def along (f : Point → ℚ) (ps : List Point) : Set ℚ := {v | ∃ p ∈ ps, f p = v}

theorem along_concat : along f (done ++ [p]) = insert (f p) (along f done) := by
  ext v
  simp only [along, List.mem_append, List.mem_singleton, Set.mem_ofPred_eq, Set.mem_insert_iff,
    or_and_right, exists_or, exists_eq_left]
  rw [or_comm, eq_comm]

structure Encloses (e : ExactBox) (ps : List Point) : Prop where
  isFinite : e.isFinite = true
  minX : IsLeast (along (fun p => value p.x) ps) (value e.minX)
  minY : IsLeast (along (fun p => value p.y) ps) (value e.minY)
  maxX : IsGreatest (along (fun p => value p.x) ps) (value e.maxX)
  maxY : IsGreatest (along (fun p => value p.y) ps) (value e.maxY)

def push (e : ExactBox) (p : Point) : ExactBox :=
  ⟨least e.minX p.x, least e.minY p.y, greatest e.maxX p.x, greatest e.maxY p.y⟩

theorem ofPoints_eq (ps : List Point) :
    ofPoints ps = ps.foldl push ⟨infinity, infinity, -infinity, -infinity⟩ := rfl

theorem Encloses.push (h : e.Encloses done) (hp : p.isFinite = true) :
    (e.push p).Encloses (done ++ [p]) := by
  obtain ⟨⟨hminX, hmaxX⟩, hminY, hmaxY⟩ := isFinite_iff.1 h.isFinite
  obtain ⟨hx, hy⟩ := (Bool.and_eq_true _ _).mp hp
  obtain ⟨hminX', hminX⟩ := isFinite_and_value_least hminX hx
  obtain ⟨hminY', hminY⟩ := isFinite_and_value_least hminY hy
  obtain ⟨hmaxX', hmaxX⟩ := isFinite_and_value_greatest hmaxX hx
  obtain ⟨hmaxY', hmaxY⟩ := isFinite_and_value_greatest hmaxY hy
  refine ⟨isFinite_iff.2 ⟨⟨hminX', hmaxX'⟩, hminY', hmaxY'⟩, ?_, ?_, ?_, ?_⟩ <;>
    rw [along_concat, ExactBox.push]
  · rw [hminX, min_comm]
    exact h.minX.insert _
  · rw [hminY, min_comm]
    exact h.minY.insert _
  · rw [hmaxX, max_comm]
    exact h.maxX.insert _
  · rw [hmaxY, max_comm]
    exact h.maxY.insert _

theorem Encloses.foldl (h : e.Encloses done) (hps : ∀ p ∈ ps, p.isFinite = true) :
    (ps.foldl ExactBox.push e).Encloses (done ++ ps) := by
  induction ps generalizing e done with
  | nil => rwa [List.append_nil]
  | cons p ps ih =>
    have hnext := ih (h.push (hps p List.mem_cons_self)) fun q hq =>
      hps q (List.mem_cons_of_mem p hq)
    rwa [List.append_assoc, List.singleton_append] at hnext

theorem encloses_singleton (hp : p.isFinite = true) :
    Encloses ⟨p.x, p.y, p.x, p.y⟩ [p] := by
  have halong (f : Point → ℚ) : along f [p] = {f p} := by
    ext v
    simp [along, eq_comm]
  obtain ⟨hx, hy⟩ := (Bool.and_eq_true _ _).mp hp
  refine ⟨isFinite_iff.2 ⟨⟨hx, hx⟩, hy, hy⟩, ?_, ?_, ?_, ?_⟩ <;> rw [halong]
  · exact isLeast_singleton
  · exact isLeast_singleton
  · exact isGreatest_singleton
  · exact isGreatest_singleton

theorem encloses_ofPoints (hps : ∀ q ∈ p :: ps, q.isFinite = true) :
    (ofPoints (p :: ps)).Encloses (p :: ps) := by
  obtain ⟨hx, hy⟩ := (Bool.and_eq_true _ _).mp (hps p List.mem_cons_self)
  rw [ofPoints_eq, List.foldl_cons, ExactBox.push, least_infinity hx, least_infinity hy,
    greatest_neg_infinity hx, greatest_neg_infinity hy]
  exact (encloses_singleton (hps p List.mem_cons_self)).foldl fun q hq =>
    hps q (List.mem_cons_of_mem p hq)

end ExactBox

end PatternScript
