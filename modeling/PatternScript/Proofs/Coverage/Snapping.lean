import PatternScript.Proofs.Rectangles
import PatternScript.Raster.Coverage

/-!
# Cells and snapped edges

Along one axis the cells of side `b` cut a length `L` at the multiples of `b`, and the last
cell may be shorter. Snapping an edge inward moves it to a cell border, or to the border of
the surface, so that between two snapped edges lie exactly the cells that the unsnapped
edges enclose.
-/
namespace PatternScript.Coverage

theorem ceilDiv_le_iff {b v k : Int} (hb : 0 < b) : (v + b - 1) / b ≤ k ↔ v ≤ k * b := by
  have h := Int.ediv_lt_iff_lt_mul (a := v + b - 1) (b := k + 1) hb
  rw [Int.add_mul, Int.one_mul] at h
  omega

theorem lt_ceilDiv_iff {b v k : Int} (hb : 0 < b) : k < (v + b - 1) / b ↔ k * b < v := by
  have h := ceilDiv_le_iff (v := v) (k := k) hb
  omega

theorem div_eq_iff {b x k : Int} (hb : 0 < b) : x / b = k ↔ k * b ≤ x ∧ x < (k + 1) * b := by
  have hlo := Int.le_ediv_iff_mul_le (a := k) (b := x) hb
  have hhi := Int.ediv_lt_iff_lt_mul (a := x) (b := k + 1) hb
  omega

def borderUp (b L v : Int) : Int := if v ≤ 0 then 0 else min ((v + b - 1) / b * b) L

def borderDown (b L v : Int) : Int := if L ≤ v then L else max v 0 / b * b

theorem borderUp_le_iff {b L v x : Int} (hb : 0 < b) (hx : 0 ≤ x) (hL : x < L) :
    borderUp b L v ≤ x ↔ v ≤ x / b * b := by
  have hk : 0 ≤ x / b * b := Int.mul_nonneg (Int.ediv_nonneg hx (Int.le_of_lt hb)) (Int.le_of_lt hb)
  have hcut := ceilDiv_le_iff (v := v) (k := x / b) hb
  have hceil := Int.le_ediv_iff_mul_le (a := (v + b - 1) / b) (b := x) hb
  rw [borderUp]
  split <;> omega

theorem lt_borderDown_iff {b L v x : Int} (hb : 0 < b) (hx : 0 ≤ x) (hL : x < L) :
    x < borderDown b L v ↔ min ((x / b + 1) * b) L ≤ v := by
  have hcell := (div_eq_iff (x := x) hb).1 rfl
  have hnext : 0 < (x / b + 1) * b := by omega
  have hfloor := Int.le_ediv_iff_mul_le (a := x / b + 1) (b := max v 0) hb
  have hlt := Int.ediv_lt_iff_lt_mul (a := x) (b := max v 0 / b) hb
  rw [borderDown]
  split <;> omega

theorem borderUp_nonneg {b L v : Int} (hb : 0 < b) (hL : 0 ≤ L) : 0 ≤ borderUp b L v := by
  rw [borderUp]
  split
  next => exact Int.le_refl 0
  next hv =>
    have hc : 0 ≤ (v + b - 1) / b * b :=
      Int.mul_nonneg (Int.ediv_nonneg (by omega) (Int.le_of_lt hb)) (Int.le_of_lt hb)
    omega

theorem borderUp_le {b L v : Int} (hL : 0 ≤ L) : borderUp b L v ≤ L := by
  rw [borderUp]
  split <;> omega

theorem borderDown_nonneg {b L v : Int} (hb : 0 < b) (hL : 0 ≤ L) : 0 ≤ borderDown b L v := by
  rw [borderDown]
  split
  next => exact hL
  next => exact Int.mul_nonneg (Int.ediv_nonneg (by omega) (Int.le_of_lt hb)) (Int.le_of_lt hb)

theorem borderDown_le {b L v : Int} (hb : 0 < b) (hL : 0 ≤ L) : borderDown b L v ≤ L := by
  rw [borderDown]
  split
  next => exact Int.le_refl L
  next hv =>
    have hmul := Int.ediv_mul_le (max v 0) (b := b) (by omega)
    omega

structure WellFormed (g : Coverage) : Prop where
  width_nonneg : 0 ≤ g.width.toInt
  height_nonneg : 0 ≤ g.height.toInt
  block_pos : 0 < g.block.toInt
  columns_eq : g.columns.toInt = (g.width.toInt + g.block.toInt - 1) / g.block.toInt
  rows_eq : g.rows.toInt = (g.height.toInt + g.block.toInt - 1) / g.block.toInt
  count_fits : g.columns.toInt * g.rows.toInt < 2147483648
  size_eq : (g.cells.size : Int) = g.columns.toInt * g.rows.toInt

def cellCount (width height block : Int32) : Int :=
  let b := max block.toInt 1
  ((max width.toInt 0 + b - 1) / b) * ((max height.toInt 0 + b - 1) / b)

theorem ceilDiv_le_self {b v : Int} (hb : 0 < b) (hv : 0 ≤ v) : (v + b - 1) / b ≤ v := by
  rw [ceilDiv_le_iff hb]
  have hmul := Int.mul_le_mul_of_nonneg_left (a := 1) (b := b) (by omega) hv
  rwa [Int.mul_one] at hmul

theorem ceilDiv_nonneg {b v : Int} (hb : 0 < b) (hv : 0 ≤ v) : 0 ≤ (v + b - 1) / b :=
  Int.ediv_nonneg (by omega) (Int.le_of_lt hb)

theorem cellCount_le {width height : Int32} (block : Int32) (hw : 0 ≤ width.toInt)
    (hh : 0 ≤ height.toInt) : cellCount width height block ≤ width.toInt * height.toInt := by
  have hb : 0 < max block.toInt 1 := by omega
  rw [cellCount]
  rw [Int.max_eq_left hw, Int.max_eq_left hh]
  exact Int.mul_le_mul (ceilDiv_le_self hb hw) (ceilDiv_le_self hb hh) (ceilDiv_nonneg hb hh) hw

theorem toInt_cellsAlong {block length : Int32} (hb : 0 < block.toInt) (hl : 0 ≤ length.toInt) :
    (cellsAlong block length).toInt = (length.toInt + block.toInt - 1) / block.toInt := by
  have hle := ceilDiv_le_self hb hl
  have hpos := ceilDiv_nonneg hb hl
  have hlen := (Words.bounds length).2
  rw [cellsAlong]
  rw [Int.tdiv_eq_ediv_of_nonneg (by omega), Words.toInt_ofInt_of_fits (by omega) (by omega)]

theorem toInt_cellsAlong_max (block length : Int32) :
    (cellsAlong (max block 1) (max length 0)).toInt =
      (max length.toInt 0 + max block.toInt 1 - 1) / max block.toInt 1 := by
  have hb : (max block 1).toInt = max block.toInt 1 := Words.toInt_max _ _
  have hl : (max length 0).toInt = max length.toInt 0 := Words.toInt_max _ _
  rw [← hb, ← hl]
  exact toInt_cellsAlong (by omega) (by omega)

section New

variable {width height block : Int32}

theorem toInt_columns_new : (new width height block).columns.toInt =
    (max width.toInt 0 + max block.toInt 1 - 1) / max block.toInt 1 :=
  toInt_cellsAlong_max block width

theorem toInt_rows_new : (new width height block).rows.toInt =
    (max height.toInt 0 + max block.toInt 1 - 1) / max block.toInt 1 :=
  toInt_cellsAlong_max block height

theorem columns_mul_rows_new (width height block : Int32) : (new width height block).columns.toInt *
    (new width height block).rows.toInt = cellCount width height block := by
  rw [toInt_columns_new, toInt_rows_new, cellCount]

theorem cellCount_nonneg (width height block : Int32) : 0 ≤ cellCount width height block :=
  Int.mul_nonneg (ceilDiv_nonneg (by omega) (by omega)) (ceilDiv_nonneg (by omega) (by omega))

/-- The grid of a surface with the sides `width` and `height` and cells of side `block`. A side
below zero counts as zero, and there are as many columns and rows as cover the surface. -/
structure IsGridOf (g : Coverage) (width height block : Int32) : Prop where
  width_eq : g.width.toInt = max width.toInt 0
  height_eq : g.height.toInt = max height.toInt 0
  block_eq : g.block.toInt = max block.toInt 1
  columns_eq : g.columns.toInt =
    (max width.toInt 0 + max block.toInt 1 - 1) / max block.toInt 1
  rows_eq : g.rows.toInt = (max height.toInt 0 + max block.toInt 1 - 1) / max block.toInt 1
  size_eq : (g.cells.size : Int) = g.columns.toInt * g.rows.toInt

theorem isGridOf_new (fits : cellCount width height block < 2147483648) :
    (new width height block).IsGridOf width height block := by
  refine ⟨Words.toInt_max _ _, Words.toInt_max _ _, Words.toInt_max _ _, toInt_columns_new,
    toInt_rows_new, ?_⟩
  have hcount := columns_mul_rows_new width height block
  have hpos := cellCount_nonneg width height block
  have hmul := Words.toInt_mul_of_fits (a := (new width height block).columns)
    (b := (new width height block).rows) (by omega) (by omega)
  have hsize : (new width height block).cells.size =
      ((new width height block).columns * (new width height block).rows).toNatClampNeg :=
    Array.size_replicate
  rw [hsize, ← hmul]
  exact Int.toNat_of_nonneg (by omega)

theorem IsGridOf.wellFormed {g : Coverage} (hg : g.IsGridOf width height block)
    (fits : cellCount width height block < 2147483648) : g.WellFormed where
  width_nonneg := hg.width_eq ▸ Int.le_max_right _ _
  height_nonneg := hg.height_eq ▸ Int.le_max_right _ _
  block_pos := hg.block_eq ▸ Int.le_max_right _ _
  columns_eq := by rw [hg.columns_eq, hg.width_eq, hg.block_eq]
  rows_eq := by rw [hg.rows_eq, hg.height_eq, hg.block_eq]
  count_fits := by
    rw [hg.columns_eq, hg.rows_eq]
    exact fits
  size_eq := hg.size_eq

theorem wellFormed_new (fits : cellCount width height block < 2147483648) :
    (new width height block).WellFormed := (isGridOf_new fits).wellFormed fits

end New

theorem wellFormed_of_cells {g : Coverage} (hg : g.WellFormed) {cells : Array Bool}
    (hsize : cells.size = g.cells.size) : { g with cells }.WellFormed :=
  ⟨hg.1, hg.2, hg.3, hg.4, hg.5, hg.6, by rw [← hg.7]; exact congrArg Nat.cast hsize⟩

namespace WellFormed

variable {g : Coverage} (hg : g.WellFormed)
include hg

theorem lt_columns_iff {k : Int} : k < g.columns.toInt ↔ k * g.block.toInt < g.width.toInt := by
  rw [hg.columns_eq, lt_ceilDiv_iff hg.block_pos]

theorem lt_rows_iff {k : Int} : k < g.rows.toInt ↔ k * g.block.toInt < g.height.toInt := by
  rw [hg.rows_eq, lt_ceilDiv_iff hg.block_pos]

theorem toInt_snapUp {limit : Int32} (hl : 0 ≤ limit.toInt) (v : Int32) :
    (g.snapUp limit v).toInt = borderUp g.block.toInt limit.toInt v.toInt := by
  have hb := hg.block_pos
  have hlim := (Words.bounds limit).2
  have hle := borderUp_le (b := g.block.toInt) (v := v.toInt) hl
  have hpos := borderUp_nonneg (v := v.toInt) hb hl
  rw [borderUp] at hle hpos ⊢
  rw [snapUp]
  simp only [Words.le_iff, Int32.toInt_zero]
  split
  next => rfl
  next hv =>
    rw [if_neg hv] at hle hpos
    rw [Int.tdiv_eq_ediv_of_nonneg (by omega), Words.toInt_ofInt_of_fits (by omega) (by omega)]

theorem toInt_snapDown {limit : Int32} (hl : 0 ≤ limit.toInt) (v : Int32) :
    (g.snapDown limit v).toInt = borderDown g.block.toInt limit.toInt v.toInt := by
  have hb := hg.block_pos
  have hlim := (Words.bounds limit).2
  have hle := borderDown_le (v := v.toInt) hb hl
  have hpos := borderDown_nonneg (v := v.toInt) hb hl
  rw [borderDown] at hle hpos ⊢
  rw [snapDown]
  simp only [ge_iff_le, Words.le_iff]
  split
  next => rfl
  next hv =>
    rw [if_neg hv] at hle hpos
    rw [Words.toInt_max, Int32.toInt_zero, Int.tdiv_eq_ediv_of_nonneg (by omega),
      Words.toInt_ofInt_of_fits (by omega) (by omega)]

end WellFormed

end PatternScript.Coverage
