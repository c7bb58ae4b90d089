import PatternScript.Proofs.Sampling.WholeBoxes

/-!
# Painting at once and sampling

The two ways to paint a moved item paint the same pixels: the box of a filled rectangle, and
the stamp of a pattern that is not scaled. Both need the map to stay near the move, since a
map that merely counts as one may carry far positions to other pixels.
-/
namespace PatternScript

open Number

namespace Item

variable {item : Item} {pattern : Pattern} {marks : List Mark} {width height x y : Int32}
  {tx ty s : Int}

theorem toWord64_sub_eq {q scale : Float} {n t : Int} (X : Int32) (hn : |n| ≤ 2147483648)
    (ht : |t| ≤ 2147483647) (hscale : scale.isFinite = true) (hvalue : value scale = 1)
    (hq : Approx q (n + 1 / 2 - t) (249 / 500)) :
    Rounding.down.toWord64 (q / scale - ofInt32 X) = n - t - X.toInt := by
  have hquotient : Approx (q / scale) (n + 1 / 2 - t) (249 / 500) := by
    have hnear := nearest_quotient (s := 1) hscale (by rw [hvalue, Int.cast_one]) le_rfl
      hq.isFinite (abs_center_le hn ht hq)
    refine ⟨hnear.isFinite, ?_⟩
    have hexact := hnear.eq_of_eq hq.isFinite (by rw [Int.cast_one, div_one])
    rw [hexact, Int.cast_one, div_one]
    exact hq.error
  have hX := Words.bounds X
  have hcell := abs_le.1 hn
  have hmove := abs_le.1 ht
  have hsize : |(n + 1 / 2 - t - X.toInt : ℚ)| + (249 / 500 + 0) ≤ 2 ^ 33 := by
    have hcell' : |(n - t - X.toInt : ℚ)| ≤ 6442450943 := by
      exact_mod_cast (show |n - t - X.toInt| ≤ 6442450943 by rw [abs_le]; omega)
    obtain ⟨hlow, hhigh⟩ := abs_le.1 hcell'
    rw [← le_sub_iff_add_le, abs_le]
    constructor <;> linarith
  have hself := Approx.self (isFinite_ofInt32 X)
  rw [value_ofInt32] at hself
  have hdifference := hquotient.sub hself hsize (by norm_num) (by norm_num)
  obtain ⟨hlow, hhigh⟩ := abs_le.1 hdifference.error
  have hfloor : Rounding.down.whole (value (q / scale - ofInt32 X)) = n - t - X.toInt := by
    refine Int.floor_eq_iff.2 ?_
    push_cast
    constructor <;> linarith
  rw [Rounding.toWord64_eq hdifference.isFinite (by rw [hfloor]; omega) (by rw [hfloor]; omega),
    hfloor]

theorem toInt_of_int32? {n : Int} {w : Int32} (h : Text.int32? n = some w) : w.toInt = n := by
  rw [Text.int32?] at h
  split_ifs at h with hfits
  rw [← Option.some.inj h, Words.toInt_ofInt_of_fits hfits.1 (by omega)]

theorem wholeStamp?_eq_some (h : item.wholeStamp? pattern = some marks) :
    ∃ tx ty, item.Moved tx ty 1 ∧ ∃ left top : Int32,
      left.toInt = (item.param "X").toInt + tx ∧ top.toInt = (item.param "Y").toInt + ty ∧
        marks = [.bitmap left top pattern.cells pattern.width pattern.height item.color] := by
  simp only [wholeStamp?, Option.bind_eq_bind, Option.pure_def] at h
  cases hone : item.scale == 1.0 with
  | false =>
    rw [hone] at h
    cases h
  | true =>
    rw [hone] at h
    simp only [Bool.not_true, Bool.false_eq_true, if_false, Option.bind_eq_some_iff,
      Option.some.injEq] at h
    obtain ⟨⟨tx, ty⟩, hoffset, left, hleft, top, htop, rfl⟩ := h
    obtain ⟨s, hmoved⟩ := moved_of_wholeOffset? hoffset
    rw [one_eq, beq_iff hmoved.isFinite_scale isFinite_one, hmoved.value_scale, value_one] at hone
    obtain rfl : s = 1 := by exact_mod_cast hone
    exact ⟨tx, ty, hmoved, left, top, toInt_of_int32? hleft, toInt_of_int32? htop, rfl⟩

theorem toInt_ofNat {n : Nat} (h : n < 2 ^ 31) : (Int32.ofNat n).toInt = n := by
  rw [Int32.toInt_ofNat', Words.bmod_of_fits (by omega) (by omega)]

theorem eq_saturatingAdd_iff {a : Int32} {n : Nat} (hn : n < 2 ^ 31) (hx : x.toInt < width.toInt) :
    saturatingAdd a (Int32.ofNat n) = x ↔ x.toInt = a.toInt + n := by
  have ha := Words.bounds a
  have hwidth := Words.bounds width
  rw [← Int32.toInt_inj, Words.toInt_saturatingAdd, toInt_ofNat hn]
  omega

theorem mem_bitmapPoints_iff {left top : Int32} (hsize : pattern.cells.size ≤ 2 ^ 31)
    (hon : (Rect.ofSize width height).contains x y = true) :
    (x, y) ∈ Mark.bitmapPoints left top pattern.cells pattern.width pattern.height ↔
      ∃ row col : Nat, row < pattern.height ∧ col < pattern.width ∧
        pattern.isSetAt col row = true ∧ x.toInt = left.toInt + col ∧
          y.toInt = top.toInt + row := by
  obtain ⟨hx, hy⟩ := Rect.contains_ofSize.1 hon
  rw [Mark.bitmapPoints, List.mem_flatMap]
  simp only [List.mem_filterMap, List.mem_range, Option.ite_none_right_eq_some, Option.some.injEq,
    Prod.mk.injEq, Pattern.isSetAt, beq_iff_eq, ← exists_and_left]
  refine exists₂_congr fun row col => and_congr_right fun hrow => and_congr_right fun hcol =>
    and_congr_right fun hset => ?_
  have hplace := (Array.getElem?_eq_some_iff.1 hset).1
  have hle : row ≤ row * pattern.width := Nat.le_mul_of_pos_right row (by omega)
  rw [eq_saturatingAdd_iff (by omega) hx.2, eq_saturatingAdd_iff (by omega) hy.2]

def cellOf (item : Item) (x y : Int32) : Int × Int :=
  (Rounding.down.toWord64 ((item.logicalCenter x y).x - item.coordinate "X"),
    Rounding.down.toWord64 ((item.logicalCenter x y).y - item.coordinate "Y"))

theorem paint_sampledStamp_iff : Mark.Paint width height x y
      (item.sampledStamp pattern (.ofSize width height)) ↔
    (Rect.ofSize width height).contains x y = true ∧
      ((0 ≤ (item.cellOf x y).1 ∧ (item.cellOf x y).1 < pattern.width) ∧
        0 ≤ (item.cellOf x y).2 ∧ (item.cellOf x y).2 < pattern.height) ∧
      pattern.isSetAt (item.cellOf x y).1.toNat (item.cellOf x y).2.toNat = true := by
  rw [sampledStamp, paint_sample_iff]
  simp only [cellOf, Option.isSome_ite, Bool.and_eq_true, decide_eq_true_eq]
  constructor
  · rintro ⟨hon, ⟨⟨⟨h₁, h₂⟩, h₃⟩, h₄⟩, hset⟩
    exact ⟨hon, ⟨⟨h₁, h₃⟩, h₂, h₄⟩, hset⟩
  · rintro ⟨hon, ⟨⟨h₁, h₃⟩, h₂, h₄⟩, hset⟩
    exact ⟨hon, ⟨⟨⟨h₁, h₂⟩, h₃⟩, h₄⟩, hset⟩

theorem Moved.paint_sampledStamp_iff (h : item.Moved tx ty 1)
    (hi : item.matrix.invert? = some item.inverse) (hnear : item.matrix.StaysNear width height)
    (hon : (Rect.ofSize width height).contains x y = true) :
    Mark.Paint width height x y (item.sampledStamp pattern (.ofSize width height)) ↔
      ∃ row col : Nat, row < pattern.height ∧ col < pattern.width ∧
        pattern.isSetAt col row = true ∧ x.toInt = (item.param "X").toInt + tx + col ∧
          y.toInt = (item.param "Y").toInt + ty + row := by
  obtain ⟨hx, hy⟩ := h.approx_center hi hnear hon
  have hscale : value item.scale = 1 := by rw [h.value_scale, Int.cast_one]
  have hcol := toWord64_sub_eq (item.param "X") (abs_toInt_le x) h.tx_le h.isFinite_scale hscale hx
  have hrow := toWord64_sub_eq (item.param "Y") (abs_toInt_le y) h.ty_le h.isFinite_scale hscale hy
  rw [Item.paint_sampledStamp_iff, cellOf, logicalCenter_eq]
  dsimp only [coordinate]
  rw [hcol, hrow]
  simp only [hon, true_and]
  constructor
  · rintro ⟨⟨⟨hcol₀, hcol₁⟩, hrow₀, hrow₁⟩, hset⟩
    exact ⟨_, _, by omega, by omega, hset, by omega, by omega⟩
  · rintro ⟨row, col, hrow₁, hcol₁, hset, hx', hy'⟩
    have hcol' : x.toInt - tx - (item.param "X").toInt = col := by omega
    have hrow' : y.toInt - ty - (item.param "Y").toInt = row := by omega
    rw [hcol', hrow', Int.toNat_natCast, Int.toNat_natCast]
    exact ⟨⟨⟨by omega, by omega⟩, by omega, by omega⟩, hset⟩

theorem samePixels_sampledStamp (hi : item.matrix.invert? = some item.inverse)
    (hnear : item.matrix.StaysNear width height) (hsize : pattern.cells.size ≤ 2 ^ 31)
    (h : item.wholeStamp? pattern = some marks) :
    Mark.SamePixels width height marks (item.sampledStamp pattern (.ofSize width height)) := by
  obtain ⟨tx, ty, hmoved, left, top, hleft, htop, rfl⟩ := wholeStamp?_eq_some h
  refine Mark.samePixels_of_color (k := item.color) (fun m hm => ?_) (fun m hm => ?_)
    fun x y hon => ?_
  · rw [List.mem_singleton.1 hm, Mark.color]
  · rw [sampledStamp] at hm
    refine color_of_mem_sample (fun p k' hk' => ?_) m hm
    dsimp only at hk'
    split_ifs at hk'
    exact (Option.some.inj hk').symm
  · rw [hmoved.paint_sampledStamp_iff hi hnear hon, ← hleft, ← htop,
      ← mem_bitmapPoints_iff hsize hon, Mark.Paint]
    simp only [List.mem_singleton, exists_eq_left, Mark.points]

/-- A box or a stamp that is painted at once leaves the pixels that sampling would leave, when
the map stays near the move for which it is taken. -/
theorem fast_paths_agree_with_sampling (item : Item) (width height : Int32)
    (hi : item.matrix.invert? = some item.inverse) (hs : (0 : Float) ≤ item.scale)
    (hoffset : item.wholeOffset?.isSome = true) (hnear : item.matrix.StaysNear width height) :
    (item.fill = none → ∃ marks, item.wholeBox? (.ofSize width height) = some marks ∧
      Mark.SamePixels width height marks (item.sampledRect (.ofSize width height))) ∧
    ∀ pattern marks, item.stamp = some pattern → pattern.cells.size ≤ 2 ^ 31 →
      item.wholeStamp? pattern = some marks →
      Mark.SamePixels width height marks (item.sampledStamp pattern (.ofSize width height)) := by
  obtain ⟨⟨tx, ty⟩, hmove⟩ := Option.isSome_iff_exists.1 hoffset
  exact ⟨fun hfill => exists_samePixels_sampledRect hi hs hnear hfill hmove,
    fun _ _ _ hsize h => samePixels_sampledStamp hi hnear hsize h⟩

theorem fast_paths_agree_with_sampling_of_shift :
    let rect : Item :=
      { shape := .fillRect, line := 1, params := (NameMap.empty.set "WIDTH" 2).set "HEIGHT" 2
        matrix := .shift 1 2, inverse := ((Affine.shift 1 2).invert?).getD .identity }
    let stamp : Item := { rect with shape := .stamp, stamp := some ⟨"P", 2, 1, #[0, 1]⟩ }
    (∃ marks, rect.wholeBox? (.ofSize 4 4) = some marks ∧
      Mark.SamePixels 4 4 marks (rect.sampledRect (.ofSize 4 4))) ∧
    ∃ marks, stamp.wholeStamp? ⟨"P", 2, 1, #[0, 1]⟩ = some marks ∧
      Mark.SamePixels 4 4 marks (stamp.sampledStamp ⟨"P", 2, 1, #[0, 1]⟩ (.ofSize 4 4)) := by
  intro rect stamp
  have hnear : (Affine.shift 1 2).StaysNear 4 4 := Affine.staysNear_shift 1 2 4 4
  have hi : (Affine.shift 1 2).invert? = some ((Affine.shift 1 2).invert?.getD .identity) := rfl
  have hrect := fast_paths_agree_with_sampling rect 4 4 hi (by decide +kernel)
    (by decide +kernel) hnear
  have hstamp := fast_paths_agree_with_sampling stamp 4 4 hi (by decide +kernel)
    (by decide +kernel) hnear
  obtain ⟨marks, hmarks⟩ := Option.isSome_iff_exists.1
    (show (stamp.wholeStamp? ⟨"P", 2, 1, #[0, 1]⟩).isSome = true by decide +kernel)
  exact ⟨hrect.1 rfl, marks, hmarks, hstamp.2 _ marks rfl (by decide) hmarks⟩

def farRect : Item :=
  let matrix : Affine := ⟨1.0000000009, 0, 0, 1, -2000000000, 0⟩
  { shape := .fillRect, line := 1, matrix, inverse := matrix.invert?.getD .identity
    params := ((NameMap.empty.set "X" 2000000000).set "WIDTH" 1).set "HEIGHT" 1 }

def turnedRect : Item :=
  { shape := .fillRect, line := 1, scale := -1, inverse := Affine.identity.invert?.getD .identity
    params := ((((NameMap.empty.set "X" (-1)).set "Y" (-1)).set "WIDTH" 1).set "HEIGHT" 1) }

def row (n : Nat) : Pattern := ⟨"ROW", n + 1, 1, (Array.replicate n 0).push 1⟩

def longStamp : Item :=
  { shape := .stamp, line := 1, stamp := some (row 4294967296)
    inverse := Affine.identity.invert?.getD .identity }

theorem getElem?_row (n col : Nat) : (row n).cells[col]? = some 1 ↔ col = n := by
  rw [row, Array.getElem?_push, Array.size_replicate, Array.getElem?_replicate]
  split_ifs with heq hlt <;> simp [heq]

theorem mem_bitmapPoints (left top : Int32) {cells : Array UInt8} {w h i j : Nat} (hi : i < h)
    (hj : j < w) (hset : cells[i * w + j]? = some 1) :
    (saturatingAdd left (Int32.ofNat j), saturatingAdd top (Int32.ofNat i)) ∈
      Mark.bitmapPoints left top cells w h := by
  rw [Mark.bitmapPoints, List.mem_flatMap]
  refine ⟨i, List.mem_range.2 hi, List.mem_filterMap.2 ⟨j, List.mem_range.2 hj, ?_⟩⟩
  rw [if_pos hset]

theorem not_samePixels_longStamp :
    ∃ marks, longStamp.wholeStamp? (row 4294967296) = some marks ∧
      ¬ Mark.SamePixels 1 1 marks (longStamp.sampledStamp (row 4294967296) (.ofSize 1 1)) := by
  have hcol : Rounding.down.toWord64 ((longStamp.logicalCenter 0 0).x - longStamp.coordinate "X") =
      0 := by decide +kernel
  have hrow : Rounding.down.toWord64 ((longStamp.logicalCenter 0 0).y - longStamp.coordinate "Y") =
      0 := by decide +kernel
  obtain ⟨marks, hmarks⟩ := Option.isSome_iff_exists.1
    (show (longStamp.wholeStamp? (row 4294967296)).isSome = true by decide +kernel)
  refine ⟨marks, hmarks, fun h => ?_⟩
  obtain ⟨tx, ty, hmoved, left, top, hleft, htop, rfl⟩ := wholeStamp?_eq_some hmarks
  have htx : tx = 0 := by exact_mod_cast hmoved.value_tx.symm.trans value_ofNat_zero
  have hty : ty = 0 := by exact_mod_cast hmoved.value_ty.symm.trans value_ofNat_zero
  obtain rfl : left = 0 := Int32.toInt_inj.1 (hleft.trans (by rw [htx]; decide))
  obtain rfl : top = 0 := Int32.toInt_inj.1 (htop.trans (by rw [hty]; decide))
  have hshown : Mark.Paint 1 1 0 0 [.bitmap 0 0 (row 4294967296).cells (row 4294967296).width
      (row 4294967296).height longStamp.color] := by
    have hlast := mem_bitmapPoints 0 0 (w := 4294967297) (h := 1) (i := 0) (j := 4294967296)
      (by decide) (by decide) ((getElem?_row 4294967296 _).2 (by decide))
    exact ⟨_, List.mem_singleton_self _, hlast⟩
  have hclear : ¬ Mark.Paint 1 1 0 0
      (longStamp.sampledStamp (row 4294967296) (.ofSize 1 1)) := by
    have hunset : (row 4294967296).isSetAt 0 0 = false := by
      rw [Pattern.isSetAt, beq_eq_false_iff_ne, ne_eq, getElem?_row]
      decide
    rw [sampledStamp, paint_sample_iff]
    dsimp only
    rw [hcol, hrow, Int.toNat_zero, hunset, Bool.and_false]
    decide
  have hat : Mark.topColor 1 1 0 0 _ = Mark.topColor 1 1 0 0 _ := h 0 0 (by decide)
  rw [Mark.topColor_eq_none_iff.2 hclear] at hat
  exact Mark.topColor_eq_none_iff.1 hat hshown

/-- Painted at once, the far rectangle is two pixels to the left of its sampled place. The
turned one is lost, and the long stamp shows its last cell in the place of its first. -/
theorem far_rect_is_painted_beside_its_samples :
    (farRect.matrix.invert? = some farRect.inverse ∧ farRect.fill = none ∧
      farRect.wholeOffset?.isSome = true ∧
      ∃ marks, farRect.wholeBox? (.ofSize 3 1) = some marks ∧
        ¬ Mark.SamePixels 3 1 marks (farRect.sampledRect (.ofSize 3 1))) ∧
    (turnedRect.matrix.invert? = some turnedRect.inverse ∧ turnedRect.fill = none ∧
      turnedRect.wholeOffset?.isSome = true ∧
      ∃ marks, turnedRect.wholeBox? (.ofSize 1 1) = some marks ∧
        ¬ Mark.SamePixels 1 1 marks (turnedRect.sampledRect (.ofSize 1 1))) ∧
    longStamp.matrix.invert? = some longStamp.inverse ∧ longStamp.stamp = some (row 4294967296) ∧
      longStamp.wholeOffset?.isSome = true ∧
      ∃ marks, longStamp.wholeStamp? (row 4294967296) = some marks ∧
        ¬ Mark.SamePixels 1 1 marks (longStamp.sampledStamp (row 4294967296) (.ofSize 1 1)) := by
  refine ⟨⟨rfl, rfl, by decide +kernel, [.box 0 0 1 1 .black], rfl, fun h => ?_⟩,
    ⟨rfl, rfl, by decide +kernel, [], rfl, fun h => ?_⟩,
    rfl, rfl, by decide +kernel, not_samePixels_longStamp⟩
  · have hat : Mark.topColor 3 1 0 0 [.box 0 0 1 1 .black] =
        Mark.topColor 3 1 0 0 (farRect.sampledRect (.ofSize 3 1)) := h 0 0 (by decide)
    revert hat
    decide +kernel
  · have hat : Mark.topColor 1 1 0 0 [] =
        Mark.topColor 1 1 0 0 (turnedRect.sampledRect (.ofSize 1 1)) := h 0 0 (by decide)
    revert hat
    decide +kernel

end Item

end PatternScript
