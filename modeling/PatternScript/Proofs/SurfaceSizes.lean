import PatternScript.Preview.Config
import PatternScript.Proofs.CanvasPixels
import PatternScript.Proofs.Coverage.Cells

/-!
# The sizes that a configuration may ask for

The sides of an accepted configuration are at least one pixel long, and that is all that is
asked of them. The words in which pixels and cells are counted and placed are exact precisely
when the numbers of pixels and of cells are below `2 ^ 31`. There are never more cells than
pixels, so the pixels alone decide.
-/
namespace PatternScript

/-- Whether words count and place the cells of `h` rows of `w` each as integers would. -/
structure Words.Addressable (w h : Int32) : Prop where
  count : (w * h).toInt = w.toInt * h.toInt
  place : ∀ x y : Int32, (0 ≤ x.toInt ∧ x.toInt < w.toInt) → (0 ≤ y.toInt ∧ y.toInt < h.toInt) →
    (y * w).toInt = y.toInt * w.toInt ∧ (y * w + x).toInt = y.toInt * w.toInt + x.toInt

theorem Words.addressable_iff {w h : Int32} (hw : 0 ≤ w.toInt) (hh : 0 ≤ h.toInt) :
    Addressable w h ↔ w.toInt * h.toInt < 2147483648 := by
  constructor
  · intro exact
    rw [← exact.count]
    exact (bounds (w * h)).2
  · intro fits
    have hpos : 0 ≤ w.toInt * h.toInt := Int.mul_nonneg hw hh
    refine ⟨toInt_mul_of_fits (by omega) fits, ?_⟩
    intro x y hx hy
    obtain ⟨hrow, hplace, -⟩ := toInt_row_add hx hy fits
    exact ⟨hrow, hplace⟩

namespace Canvas

structure Exact (c : Canvas) : Prop where
  addressable : Words.Addressable c.width c.height
  size : (c.pixels.size : Int) = c.width.toInt * c.height.toInt
  inside : ∀ x y i, c.index? x y = some i → i < c.pixels.size

theorem exact_blank_iff {width height : Int32} (hw : 0 ≤ width.toInt) (hh : 0 ≤ height.toInt) :
    (blank width height).Exact ↔ width.toInt * height.toInt < 2147483648 := by
  have hwidth : (blank width height).width.toInt = width.toInt := by
    change (max width 0).toInt = _
    rw [Words.toInt_max, Int32.toInt_zero, Int.max_eq_left hw]
  have hheight : (blank width height).height.toInt = height.toInt := by
    change (max height 0).toInt = _
    rw [Words.toInt_max, Int32.toInt_zero, Int.max_eq_left hh]
  have haddress := Words.addressable_iff (hwidth ▸ hw) (hheight ▸ hh)
  rw [hwidth, hheight] at haddress
  constructor
  · intro exact
    exact haddress.1 exact.addressable
  · intro fits
    have hc : (blank width height).WellFormed :=
      wellFormed_blank (by rwa [Int.max_eq_left hw, Int.max_eq_left hh])
    refine ⟨haddress.2 fits, hc.size_eq, ?_⟩
    intro x y i hi
    obtain ⟨hon, rfl⟩ := index?_eq_some_iff.1 hi
    exact place_lt hc hon

end Canvas

namespace Coverage

structure Exact (g : Coverage) : Prop where
  addressable : Words.Addressable g.columns g.rows
  size : (g.cells.size : Int) = g.columns.toInt * g.rows.toInt
  inside : ∀ col row, g.HasCell col row → g.index col row < g.cells.size

theorem exact_new_iff (width height block : Int32) :
    (new width height block).Exact ↔ cellCount width height block < 2147483648 := by
  have haddress := Words.addressable_iff (w := (new width height block).columns)
    (h := (new width height block).rows)
    (toInt_columns_new ▸ ceilDiv_nonneg (by omega) (by omega))
    (toInt_rows_new ▸ ceilDiv_nonneg (by omega) (by omega))
  rw [columns_mul_rows_new] at haddress
  constructor
  · intro exact
    exact haddress.1 exact.addressable
  · intro fits
    have hg : (new width height block).WellFormed := wellFormed_new fits
    exact ⟨haddress.2 fits, hg.size_eq, fun col row hc => (toInt_index hg hc).2⟩

end Coverage

namespace Config

variable {c : Config}

theorem one_le_clamped (c : Config) : 1 ≤ c.clamped.width.toInt ∧ 1 ≤ c.clamped.height.toInt := by
  have one_le_max (n : Int32) : 1 ≤ (max n 1).toInt := by
    have hone : (1 : Int32).toInt = 1 := rfl
    rw [Words.toInt_max, hone]
    omega
  exact ⟨one_le_max _, one_le_max _⟩

/-- Whatever sizes were decoded, once they are clamped the canvas and the grid have exact words
precisely when their pixels and their cells are fewer than `2 ^ 31`. -/
theorem exact_clamped_iff (c : Config) :
    ((Canvas.blank c.clamped.width c.clamped.height).Exact ↔
        c.clamped.width.toInt * c.clamped.height.toInt < 2147483648) ∧
      ((Coverage.new c.clamped.width c.clamped.height c.clamped.block).Exact ↔
        Coverage.cellCount c.clamped.width c.clamped.height c.clamped.block < 2147483648) ∧
      Coverage.cellCount c.clamped.width c.clamped.height c.clamped.block ≤
        c.clamped.width.toInt * c.clamped.height.toInt := by
  obtain ⟨hwidth, hheight⟩ := c.one_le_clamped
  have hw : 0 ≤ c.clamped.width.toInt := Int.le_trans (by decide) hwidth
  have hh : 0 ≤ c.clamped.height.toInt := Int.le_trans (by decide) hheight
  exact ⟨Canvas.exact_blank_iff hw hh, Coverage.exact_new_iff _ _ _, Coverage.cellCount_le _ hw hh⟩

theorem exists_of_parsed {text : String} {width height block : Int32}
    (h : (parse text).toOption.map (fun c => (c.width, c.height, c.block)) =
      some (width, height, block)) :
    ∃ c, parse text = .ok c ∧ c.width = width ∧ c.height = height ∧ c.block = block := by
  cases hparse : parse text with
  | error fault => simp [hparse, Except.toOption] at h
  | ok c =>
    simp only [hparse, Except.toOption, Option.map_some, Option.some.injEq, Prod.mk.injEq] at h
    exact ⟨c, rfl, h⟩

/-- An accepted configuration gives a canvas and a grid whose words are exact precisely when
its pixels and its cells are fewer than `2 ^ 31`. -/
theorem exact_iff_of_parse {text : String} (h : parse text = .ok c) :
    (1 ≤ c.width.toInt ∧ 1 ≤ c.height.toInt) ∧
      ((Canvas.blank c.width c.height).Exact ↔ c.width.toInt * c.height.toInt < 2147483648) ∧
      ((Coverage.new c.width c.height c.block).Exact ↔
        Coverage.cellCount c.width c.height c.block < 2147483648) ∧
      Coverage.cellCount c.width c.height c.block ≤ c.width.toInt * c.height.toInt := by
  obtain ⟨decoded, -, rfl⟩ := map_eq_ok.1 h
  exact ⟨decoded.one_le_clamped, decoded.exact_clamped_iff⟩

def nearlySquare : String := "\x7b\"width\":46340,\"height\":46341,\"block_size\":-7\x7d"

theorem exact_iff_of_parse_nearly_square :
    ∃ c, parse nearlySquare = .ok c ∧
      (Canvas.blank c.width c.height).Exact ∧ (Coverage.new c.width c.height c.block).Exact := by
  have hread : (parse nearlySquare).toOption.map (fun c => (c.width, c.height, c.block)) =
    some (46340, 46341, -7) := by decide +kernel
  obtain ⟨c, hparse, hwidth, hheight, -⟩ := exists_of_parsed hread
  obtain ⟨-, hcanvas, hgrid, hle⟩ := exact_iff_of_parse hparse
  have fits : c.width.toInt * c.height.toInt < 2147483648 := by
    rw [hwidth, hheight]
    decide
  exact ⟨c, hparse, hcanvas.2 fits, hgrid.2 (Int.lt_of_le_of_lt hle fits)⟩

def hugeSquare : String := "\x7b\"width\":65536,\"height\":65536,\"block_size\":1\x7d"

/-- The square is accepted. It has as many pixels, and cells, as there are words of 32 bits, so
that their number as a word is zero and the canvas and the grid have room for none. -/
theorem accepted_square_has_no_pixels :
    ∃ c, parse hugeSquare = .ok c ∧
      (¬ (Canvas.blank c.width c.height).Exact ∧
        (Canvas.blank c.width c.height).pixels.size = 0) ∧
      (¬ (Coverage.new c.width c.height c.block).Exact ∧
        (Coverage.new c.width c.height c.block).cells.size = 0) := by
  have hread : (parse hugeSquare).toOption.map (fun c => (c.width, c.height, c.block)) =
    some (65536, 65536, 1) := by decide +kernel
  obtain ⟨c, hparse, hwidth, hheight, hblock⟩ := exists_of_parsed hread
  refine ⟨c, hparse, ?_⟩
  rw [hwidth, hheight, hblock, Canvas.exact_blank_iff (by decide) (by decide),
    Coverage.exact_new_iff]
  decide

end Config

end PatternScript
