import PatternScript.Proofs.Coverage.Snapping

/-!
# The cells of a coverage grid

Every pixel of the surface belongs to one cell. The cells that a rectangle meets are those
with a pixel of it, the whole cells of a rectangle are those of which it holds every pixel
on the surface, and each cell has a place of its own in the grid.
-/
namespace PatternScript.Coverage

variable {g : Coverage} {r q s cells : Rect} {col row x y : Int32}

/-- Whether a pixel belongs to a cell and lies on the surface. -/
def InCell (g : Coverage) (col row x y : Int32) : Prop :=
  (Rect.ofSize g.width g.height).contains x y = true ∧
    (col.toInt * g.block.toInt ≤ x.toInt ∧ x.toInt < (col.toInt + 1) * g.block.toInt) ∧
    (row.toInt * g.block.toInt ≤ y.toInt ∧ y.toInt < (row.toInt + 1) * g.block.toInt)

def HasCell (g : Coverage) (col row : Int32) : Prop :=
  (0 ≤ col.toInt ∧ col.toInt < g.columns.toInt) ∧ (0 ≤ row.toInt ∧ row.toInt < g.rows.toInt)

/-- Whether the rectangle holds all pixels of a cell that are on the surface. -/
def Encloses (g : Coverage) (r : Rect) (col row : Int32) : Prop :=
  ∀ x y, g.InCell col row x y → r.contains x y = true

section Cells

variable (hg : g.WellFormed)
include hg

theorem inCell_iff : g.InCell col row x y ↔
    (Rect.ofSize g.width g.height).contains x y = true ∧
      x.toInt / g.block.toInt = col.toInt ∧ y.toInt / g.block.toInt = row.toInt := by
  rw [InCell, div_eq_iff hg.block_pos, div_eq_iff hg.block_pos]

theorem exists_inCell (hc : g.HasCell col row) : ∃ x y, g.InCell col row x y := by
  obtain ⟨⟨hcol, hcols⟩, hrow, hrows⟩ := hc
  have hb := hg.block_pos
  have hx := hg.lt_columns_iff.1 hcols
  have hy := hg.lt_rows_iff.1 hrows
  have hx₀ := Int.mul_nonneg hcol (Int.le_of_lt hb)
  have hy₀ := Int.mul_nonneg hrow (Int.le_of_lt hb)
  have hw := (Words.bounds g.width).2
  have hh := (Words.bounds g.height).2
  refine ⟨.ofInt (col.toInt * g.block.toInt), .ofInt (row.toInt * g.block.toInt), ?_⟩
  rw [inCell_iff hg, Rect.contains_ofSize, Words.toInt_ofInt_of_fits (by omega) (by omega),
    Words.toInt_ofInt_of_fits (by omega) (by omega), Int.mul_ediv_cancel _ (by omega),
    Int.mul_ediv_cancel _ (by omega)]
  exact ⟨⟨⟨hx₀, hx⟩, hy₀, hy⟩, rfl, rfl⟩

theorem hasCell_of_inCell (h : g.InCell col row x y) : g.HasCell col row := by
  obtain ⟨hon, hx, hy⟩ := (inCell_iff hg).1 h
  rw [Rect.contains_ofSize] at hon
  have hb := Int.le_of_lt hg.block_pos
  refine ⟨⟨hx ▸ Int.ediv_nonneg hon.1.1 hb, hg.lt_columns_iff.2 ?_⟩,
    hy ▸ Int.ediv_nonneg hon.2.1 hb, hg.lt_rows_iff.2 ?_⟩
  · exact Int.lt_of_le_of_lt h.2.1.1 hon.1.2
  · exact Int.lt_of_le_of_lt h.2.2.1 hon.2.2

theorem exists_cell (h : (Rect.ofSize g.width g.height).contains x y = true) :
    ∃ col row, g.InCell col row x y := by
  have hon := Rect.contains_ofSize.1 h
  have hb := Int.le_of_lt hg.block_pos
  refine ⟨x / g.block, y / g.block, (inCell_iff hg).2 ⟨h, ?_, ?_⟩⟩
  · rw [Words.toInt_div_of_nonneg hon.1.1 hb]
  · rw [Words.toInt_div_of_nonneg hon.2.1 hb]

theorem encloses_iff (hc : g.HasCell col row) : g.Encloses r col row ↔
    (r.minX.toInt ≤ col.toInt * g.block.toInt ∧
      min ((col.toInt + 1) * g.block.toInt) g.width.toInt ≤ r.maxX.toInt) ∧
    (r.minY.toInt ≤ row.toInt * g.block.toInt ∧
      min ((row.toInt + 1) * g.block.toInt) g.height.toInt ≤ r.maxY.toInt) := by
  obtain ⟨⟨hcol, hcols⟩, hrow, hrows⟩ := hc
  have hb := hg.block_pos
  have hx := hg.lt_columns_iff.1 hcols
  have hy := hg.lt_rows_iff.1 hrows
  have hx₀ := Int.mul_nonneg hcol (Int.le_of_lt hb)
  have hy₀ := Int.mul_nonneg hrow (Int.le_of_lt hb)
  have hw := (Words.bounds g.width).2
  have hh := (Words.bounds g.height).2
  simp only [Encloses, InCell, Rect.contains_ofSize, Int.add_mul, Int.one_mul]
  simp only [Rect.contains_iff]
  constructor
  · -- The rectangle holds the least and the greatest pixel of the cell.
    intro hall
    have toInt_at {n : Int} (h₀ : 0 ≤ n) (h₁ : n < 2147483648) : (Int32.ofInt n).toInt = n :=
      Words.toInt_ofInt_of_fits (by omega) h₁
    have hleast := hall (.ofInt (col.toInt * g.block.toInt)) (.ofInt (row.toInt * g.block.toInt))
    have hgreatest := hall
      (.ofInt (min (col.toInt * g.block.toInt + g.block.toInt) g.width.toInt - 1))
      (.ofInt (min (row.toInt * g.block.toInt + g.block.toInt) g.height.toInt - 1))
    rw [toInt_at (by omega) (by omega), toInt_at (by omega) (by omega)] at hleast hgreatest
    have := hleast (by omega)
    have := hgreatest (by omega)
    omega
  · intro hends x y hin
    omega

end Cells

section Snapped

variable (hg : g.WellFormed)
include hg

theorem between_borders_iff (h : g.InCell col row x y) :
    ((g.snapUp g.width r.minX).toInt ≤ x.toInt ∧ x.toInt < (g.snapDown g.width r.maxX).toInt) ∧
      ((g.snapUp g.height r.minY).toInt ≤ y.toInt ∧
        y.toInt < (g.snapDown g.height r.maxY).toInt) ↔ g.Encloses r col row := by
  rw [encloses_iff hg (hasCell_of_inCell hg h)]
  obtain ⟨hon, hx, hy⟩ := (inCell_iff hg).1 h
  obtain ⟨⟨hx₀, hxw⟩, hy₀, hyh⟩ := Rect.contains_ofSize.1 hon
  have hb := hg.block_pos
  rw [hg.toInt_snapUp hg.width_nonneg, hg.toInt_snapUp hg.height_nonneg,
    hg.toInt_snapDown hg.width_nonneg, hg.toInt_snapDown hg.height_nonneg,
    borderUp_le_iff hb hx₀ hxw, borderUp_le_iff hb hy₀ hyh,
    lt_borderDown_iff hb hx₀ hxw, lt_borderDown_iff hb hy₀ hyh, hx, hy]

theorem contains_of_wholeCells (hs : g.wholeCells? r = some s) (h : g.InCell col row x y) :
    s.contains x y = true ↔ g.Encloses r col row := by
  rw [← between_borders_iff hg h, Rect.contains_iff]
  rw [wholeCells?] at hs
  simp only [Option.ite_none_right_eq_some, Option.some.injEq] at hs
  obtain ⟨-, rfl⟩ := hs
  rfl

theorem not_encloses_of_wholeCells (hs : g.wholeCells? r = none) (hc : g.HasCell col row) :
    ¬ g.Encloses r col row := by
  obtain ⟨x, y, h⟩ := exists_inCell hg hc
  rw [← between_borders_iff hg h]
  rw [wholeCells?] at hs
  simp only [Bool.and_eq_true, decide_eq_true_eq, Words.lt_iff, ite_eq_right_iff] at hs
  intro hbetween
  cases hs (by omega)

end Snapped

section Ranges

theorem exists_div_eq_iff {b lo hi k : Int} (hb : 0 < b) (h : lo < hi) :
    (∃ x, (lo ≤ x ∧ x < hi) ∧ x / b = k) ↔ lo / b ≤ k ∧ k ≤ (hi - 1) / b := by
  constructor
  · intro h
    obtain ⟨x, hx, rfl⟩ := h
    exact ⟨Int.ediv_le_ediv hb hx.1, Int.ediv_le_ediv hb (by omega)⟩
  · intro h
    obtain ⟨hlo, hhi⟩ := h
    have hlt := (Int.ediv_lt_iff_lt_mul (a := lo) (b := k + 1) hb).1 (by omega)
    have hle := (Int.le_ediv_iff_mul_le hb).1 hhi
    rw [Int.add_mul, Int.one_mul] at hlt
    refine ⟨max lo (k * b), by omega, (div_eq_iff hb).2 ?_⟩
    rw [Int.add_mul, Int.one_mul]
    omega

variable (hg : g.WellFormed)
include hg

theorem toInt_cellRange {lo hi limit count : Int32} (hlo : 0 ≤ lo.toInt)
    (h : lo.toInt < hi.toInt) (hhi : hi.toInt ≤ limit.toInt)
    (hcount : ∀ k, k < count.toInt ↔ k * g.block.toInt < limit.toInt) :
    (lo / g.block).toInt = lo.toInt / g.block.toInt ∧
      (min ((hi - 1) / g.block) (count - 1) + 1).toInt = (hi.toInt - 1) / g.block.toInt + 1 := by
  have hone : (1 : Int32).toInt = 1 := rfl
  have hb := hg.block_pos
  have hhi₁ := (Words.bounds hi).2
  have hsub : (hi - 1).toInt = hi.toInt - 1 := by
    rw [Words.toInt_sub_of_fits, hone] <;> omega
  have hdiv : ((hi - 1) / g.block).toInt = (hi.toInt - 1) / g.block.toInt := by
    rw [Words.toInt_div_of_nonneg (by omega) (by omega), hsub]
  have hpos : 0 ≤ (hi.toInt - 1) / g.block.toInt := Int.ediv_nonneg (by omega) (by omega)
  have hself : (hi.toInt - 1) / g.block.toInt ≤ hi.toInt - 1 := Int.ediv_le_self _ (by omega)
  have hlast : (hi.toInt - 1) / g.block.toInt < count.toInt := by
    rw [hcount]
    have hmul := Int.ediv_mul_le (hi.toInt - 1) (b := g.block.toInt) (by omega)
    omega
  have hcount₁ := Words.bounds count
  have hpred : (count - 1).toInt = count.toInt - 1 := by
    rw [Words.toInt_sub_of_fits, hone] <;> omega
  have hmin : (min ((hi - 1) / g.block) (count - 1)).toInt = (hi.toInt - 1) / g.block.toInt := by
    rw [Words.toInt_min, hdiv, hpred]
    omega
  refine ⟨Words.toInt_div_of_nonneg hlo (by omega), ?_⟩
  rw [Words.toInt_add_of_fits, hmin, hone] <;> omega

theorem contains_cellsOf (hcells : g.cellsOf? q = some cells) :
    cells.contains col row = true ↔
      ∃ x y, g.InCell col row x y ∧ q.contains x y = true := by
  rw [cellsOf?] at hcells
  cases hc : q.clip? g.width g.height with
  | none => simp [hc] at hcells
  | some c =>
    rw [hc] at hcells
    cases hcells
    have hb := hg.block_pos
    obtain ⟨⟨hx₀, hx, hxw⟩, hy₀, hy, hyh⟩ := Rect.clip_bounds hc
    obtain ⟨hcol₀, hcol₁⟩ := toInt_cellRange hg hx₀ hx hxw fun _ => hg.lt_columns_iff
    obtain ⟨hrow₀, hrow₁⟩ := toInt_cellRange hg hy₀ hy hyh fun _ => hg.lt_rows_iff
    rw [Rect.contains_iff, hcol₀, hcol₁, hrow₀, hrow₁, Int.lt_add_one_iff, Int.lt_add_one_iff,
      ← exists_div_eq_iff hb hx, ← exists_div_eq_iff hb hy]
    constructor
    · intro h
      obtain ⟨⟨x, hxc, hxcol⟩, y, hyc, hyrow⟩ := h
      have hwx := (Words.bounds c.maxX).2
      have hwy := (Words.bounds c.maxY).2
      have hxi : (Int32.ofInt x).toInt = x := Words.toInt_ofInt_of_fits (by omega) (by omega)
      have hyi : (Int32.ofInt y).toInt = y := Words.toInt_ofInt_of_fits (by omega) (by omega)
      have hin : c.contains (.ofInt x) (.ofInt y) = true := by
        rw [Rect.contains_iff, hxi, hyi]
        exact ⟨hxc, hyc⟩
      obtain ⟨hq, hon⟩ := (Rect.contains_clip hc).1 hin
      refine ⟨.ofInt x, .ofInt y, (inCell_iff hg).2 ⟨hon, ?_, ?_⟩, hq⟩
      · rw [hxi, hxcol]
      · rw [hyi, hyrow]
    · intro h
      obtain ⟨x, y, hcell, hq⟩ := h
      obtain ⟨hon, hxcol, hyrow⟩ := (inCell_iff hg).1 hcell
      have hin := Rect.contains_iff.1 ((Rect.contains_clip hc).2 ⟨hq, hon⟩)
      exact ⟨⟨x.toInt, hin.1, hxcol⟩, y.toInt, hin.2, hyrow⟩

theorem hasCell_of_cellsOf (hcells : g.cellsOf? q = some cells)
    (h : cells.contains col row = true) : g.HasCell col row := by
  obtain ⟨x, y, hin, -⟩ := (contains_cellsOf hg hcells).1 h
  exact hasCell_of_inCell hg hin

omit hg in
theorem cellsOf_eq_none_iff : g.cellsOf? q = none ↔
    ∀ x y, q.contains x y = true → (Rect.ofSize g.width g.height).contains x y = false := by
  rw [← Rect.clip?_eq_none_iff]
  rw [cellsOf?]
  cases q.clip? g.width g.height <;> simp

end Ranges

section Places

variable (hg : g.WellFormed)
include hg

theorem toInt_index (hc : g.HasCell col row) :
    (g.index col row : Int) = row.toInt * g.columns.toInt + col.toInt ∧
      g.index col row < g.cells.size := by
  obtain ⟨hindex, hlt⟩ := Words.toInt_place hc.1 hc.2 hg.count_fits
  have hsize := hg.size_eq
  have heq : (g.index col row : Int) = row.toInt * g.columns.toInt + col.toInt := hindex
  exact ⟨heq, by omega⟩

theorem index_injective {col' row' : Int32} (hc : g.HasCell col row) (hc' : g.HasCell col' row')
    (h : g.index col row = g.index col' row') : col = col' ∧ row = row' := by
  have heq : (g.index col row : Int) = g.index col' row' := by rw [h]
  rw [(toInt_index hg hc).1, (toInt_index hg hc').1] at heq
  obtain ⟨hcol, hrow⟩ := Words.place_injective hc.1 hc'.1 heq
  exact ⟨Int32.toInt_inj.1 hcol, Int32.toInt_inj.1 hrow⟩

end Places

end PatternScript.Coverage
