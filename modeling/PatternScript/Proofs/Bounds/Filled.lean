import PatternScript.Proofs.Bounds.Boxes

/-!
# Pixels, filled rectangles and stamps

Each of them keeps to its frame and fills it, so the box around the corners of the frame holds
all that is seen of it. A pixel of which no center was met is shown where its own center falls,
which is well between the corners too.
-/
namespace PatternScript

open Number

namespace Item

variable {item : Item} {b : Frame} {width height x y : Int32} {marks : List Mark} {p : ℚ × ℚ}

section Inside

theorem exists_advance {k l : ℚ} (h : 1 / 4 ≤ |k| + |l|) :
    ∃ u v, (|u| ≤ 1 / 4 ∧ |v| ≤ 1 / 4) ∧ 1 / 16 ≤ k * u + l * v := by
  have side (k : ℚ) : ∃ u, |u| ≤ 1 / 4 ∧ k * u = |k| / 4 := by
    rcases abs_cases k with ⟨hk, -⟩ | ⟨hk, -⟩
    · exact ⟨1 / 4, by norm_num, by rw [hk]; ring⟩
    · exact ⟨-1 / 4, by norm_num, by rw [hk]; ring⟩
  obtain ⟨u, hu, hku⟩ := side k
  obtain ⟨v, hv, hlv⟩ := side l
  exact ⟨u, v, ⟨hu, hv⟩, by linarith⟩

theorem Moderate.rows_ge (h : item.Moderate) :
    1 / 4 ≤ |value item.matrix.xx| + |value item.matrix.xy| ∧
      1 / 4 ≤ |value item.matrix.yx| + |value item.matrix.yy| := by
  have hm := h.regular
  have hdet := hm.det_ge
  have hsub := abs_sub (value item.matrix.xx * value item.matrix.yy)
    (value item.matrix.yx * value item.matrix.xy)
  rw [Affine.exactDet] at hdet
  rw [abs_mul, abs_mul] at hsub
  constructor
  · linarith [mul_le_mul_of_nonneg_left hm.yy_le (abs_nonneg (value item.matrix.xx)),
      mul_le_mul_of_nonneg_right hm.yx_le (abs_nonneg (value item.matrix.xy))]
  · linarith [mul_le_mul_of_nonneg_right hm.xx_le (abs_nonneg (value item.matrix.yy)),
      mul_le_mul_of_nonneg_left hm.xy_le (abs_nonneg (value item.matrix.yx))]

theorem Moderate.image_inside (h : item.Moderate) (hb : b.Fits (value item.scale))
    (hp : item.InFrame b (1 / 4) p) :
    let e := ExactBox.ofPoints (item.corners b)
    (value e.minX + 1 / 32 ≤ (item.matrix.image p).1 ∧
        (item.matrix.image p).1 + 1 / 32 ≤ value e.maxX) ∧
      value e.minY + 1 / 32 ≤ (item.matrix.image p).2 ∧
        (item.matrix.image p).2 + 1 / 32 ≤ value e.maxY := by
  intro e
  obtain ⟨⟨hx₀, hx₁⟩, hy₀, hy₁⟩ := hp
  have near {u v : ℚ} (hu : |u| ≤ 1 / 4 ∧ |v| ≤ 1 / 4) :
      item.InFrame b 0 (p.1 + u, p.2 + v) ∧ item.InFrame b 0 (p.1 - u, p.2 - v) := by
    obtain ⟨hu₀, hu₁⟩ := abs_le.1 hu.1
    obtain ⟨hv₀, hv₁⟩ := abs_le.1 hu.2
    refine ⟨⟨⟨?_, ?_⟩, ?_, ?_⟩, ⟨?_, ?_⟩, ?_, ?_⟩ <;> dsimp only <;> linarith
  obtain ⟨hrow, hrow'⟩ := h.rows_ge
  obtain ⟨u, v, huv, hstep⟩ := exists_advance hrow
  obtain ⟨u', v', huv', hstep'⟩ := exists_advance hrow'
  have hup := (h.image_between hb (near huv).1).1.2
  have hdown := (h.image_between hb (near huv).2).1.1
  have hup' := (h.image_between hb (near huv').1).2.2
  have hdown' := (h.image_between hb (near huv').2).2.1
  simp only [Affine.image] at hup hdown hup' hdown' ⊢
  refine ⟨⟨?_, ?_⟩, ?_, ?_⟩ <;> linarith

end Inside

section Pixels

theorem frame?_pixel (hshape : item.shape = .pixel ∨ item.shape = .fillPixel) :
    item.frame? = some ⟨item.coordinate "X", item.coordinate "Y", 1, 1⟩ := by
  have hpos : (0 : Float) < 1 := by
    rw [lt_iff rfl isFinite_one, value_one, value_ofNat_zero]
    norm_num
  refine frame?_of_sides ?_ hpos hpos
  rcases hshape with hshape | hshape <;> rw [sides?, hshape]

def sampledPixel (item : Item) (clip : Rect) : List Mark :=
  let x := item.coordinate "X"
  let y := item.coordinate "Y"
  item.sample clip fun p =>
    if p.x ≥ x && p.x < x + 1.0 && p.y ≥ y && p.y < y + 1.0 then some item.color else none

theorem isSome_sampledPixel_iff {q : Point} {u v : Float} {k : Color} :
    (if q.x ≥ u && q.x < u + 1.0 && q.y ≥ v && q.y < v + 1.0 then some k else none).isSome = true ↔
      (u ≤ q.x ∧ q.x < u + 1) ∧ v ≤ q.y ∧ q.y < v + 1 := by
  rw [← one_eq]
  exact isSome_boxShade_iff

def pixelCenter (item : Item) : Point :=
  item.toScreen ⟨item.coordinate "X" + 0.5, item.coordinate "Y" + 0.5⟩

theorem pixelMarks_eq (item : Item) (clip : Rect) : item.pixelMarks clip =
    if (item.sampledPixel clip).isEmpty then
      [.pixel (Rounding.down.toInt32 item.pixelCenter.x) (Rounding.down.toInt32 item.pixelCenter.y)
        item.color]
    else item.sampledPixel clip := rfl

theorem Moderate.fills_pixelMarks (h : item.Moderate)
    (hb : item.frame? = some ⟨item.coordinate "X", item.coordinate "Y", 1, 1⟩) :
    item.Fills ⟨item.coordinate "X", item.coordinate "Y", 1, 1⟩ width height
      (item.pixelMarks (.ofSize width height)) := by
  intro x y hon hin
  have hfills : item.Fills ⟨item.coordinate "X", item.coordinate "Y", 1, 1⟩ width height
      (item.sampledPixel (.ofSize width height)) := by
    rw [sampledPixel]
    exact h.fills_sample (h.fits_frame hb) fun q => isSome_sampledPixel_iff.2
  obtain ⟨m, hm, hpoint⟩ := hfills x y hon hin
  rw [pixelMarks_eq, if_neg (by simpa using List.ne_nil_of_mem hm)]
  exact ⟨m, hm, hpoint⟩

theorem Moderate.keepsTo_sampledPixel (h : item.Moderate)
    (hb : item.frame? = some ⟨item.coordinate "X", item.coordinate "Y", 1, 1⟩) :
    item.KeepsTo ⟨item.coordinate "X", item.coordinate "Y", 1, 1⟩ width height
      (item.sampledPixel (.ofSize width height)) := by
  rw [sampledPixel]
  exact h.keepsTo_sample (h.fits_frame hb) fun q => isSome_sampledPixel_iff.1

def middleOfPixel (item : Item) : ℚ × ℚ :=
  (((item.param "X").toInt + 1 / 2) * value item.scale,
    ((item.param "Y").toInt + 1 / 2) * value item.scale)

theorem Moderate.inFrame_middleOfPixel (h : item.Moderate) :
    item.InFrame ⟨item.coordinate "X", item.coordinate "Y", 1, 1⟩ (1 / 4) item.middleOfPixel := by
  have hs := h.one_le_scale
  simp only [InFrame, middleOfPixel, coordinate, value_ofInt32, value_one]
  refine ⟨⟨?_, ?_⟩, ?_, ?_⟩ <;> linarith

theorem Moderate.approx_pixelCenter (h : item.Moderate) :
    Approx item.pixelCenter.x (item.matrix.image item.middleOfPixel).1 (1 / 2 ^ 31) ∧
      Approx item.pixelCenter.y (item.matrix.image item.middleOfPixel).2 (1 / 2 ^ 31) := by
  have hle := h.scale_le
  obtain ⟨hfx, hx⟩ := isFinite_and_value_center (item.param "X")
  obtain ⟨hfy, hy⟩ := isFinite_and_value_center (item.param "Y")
  have hscaled : item.scaled ⟨item.coordinate "X" + 0.5, item.coordinate "Y" + 0.5⟩ =
      item.middleOfPixel := by
    rw [scaled, coordinate, coordinate, hx, hy, middleOfPixel]
  have near (key : String) : |((item.param key).toInt + 1 / 2) * value item.scale| ≤ 2 ^ 17 := by
    have hreach := abs_le.1 ((h.short_coordinate key).abs_mul_le h.one_le_scale)
    rw [coordinate, value_ofInt32] at hreach
    rw [abs_le]
    constructor <;> linarith [h.one_le_scale]
  have hscreen := h.approx_toScreen (p := ⟨item.coordinate "X" + 0.5, item.coordinate "Y" + 0.5⟩)
    hfx hfy
  rw [hscaled] at hscreen
  exact hscreen (near "X") (near "Y")

theorem toInt_eq_floor {z : Float} {n side : Int32} (hz : z.isFinite = true)
    (hn : n = Rounding.down.toInt32 z) (hin : 0 ≤ n.toInt ∧ n.toInt < side.toInt) :
    n.toInt = ⌊value z⌋ := by
  have hside := Words.bounds side
  have hword := Rounding.toInt_toInt32 (r := .down) hz
  rw [← hn] at hword
  change n.toInt = max (-2147483648) (min 2147483647 ⌊value z⌋) at hword
  omega

theorem Moderate.contains_pixelCenter (h : item.Moderate)
    (hfits : Frame.Fits ⟨item.coordinate "X", item.coordinate "Y", 1, 1⟩ (value item.scale))
    (hon : (Rect.ofSize width height).contains x y = true)
    (hx : x = Rounding.down.toInt32 item.pixelCenter.x)
    (hy : y = Rounding.down.toInt32 item.pixelCenter.y) :
    ((ExactBox.ofPoints (item.corners ⟨item.coordinate "X", item.coordinate "Y", 1, 1⟩)).outerRect
      0).contains x y = true := by
  obtain ⟨hcx, hcy⟩ := h.approx_pixelCenter
  obtain ⟨⟨hminX, hmaxX⟩, hminY, hmaxY⟩ := h.image_inside hfits h.inFrame_middleOfPixel
  have hex := abs_le.1 hcx.error
  have hey := abs_le.1 hcy.error
  obtain ⟨honx, hony⟩ := Rect.contains_ofSize.1 hon
  have between {v lo hi : ℚ} {n : Int} (hn : n = ⌊v⌋) (hlo : lo ≤ v) (hhi : v < hi) :
      ⌊lo⌋ ≤ n ∧ n < ⌈hi⌉ + Int32.toInt 0 := by
    rw [hn, Int32.toInt_zero, add_zero]
    exact ⟨Int.floor_mono hlo, Int.lt_ceil.2 ((Int.floor_le v).trans_lt hhi)⟩
  exact ExactBox.contains_outerRect (h.encloses_corners hfits).isFinite le_rfl hon
    (between (toInt_eq_floor hcx.isFinite hx honx) (by linarith) (by linarith))
    (between (toInt_eq_floor hcy.isFinite hy hony) (by linarith) (by linarith))

theorem Moderate.contains_of_paint_pixelMarks (h : item.Moderate)
    (hb : item.frame? = some ⟨item.coordinate "X", item.coordinate "Y", 1, 1⟩)
    (hon : (Rect.ofSize width height).contains x y = true)
    (hpaint : Mark.Paint width height x y (item.pixelMarks (.ofSize width height))) :
    ((ExactBox.ofPoints (item.corners ⟨item.coordinate "X", item.coordinate "Y", 1, 1⟩)).outerRect
      0).contains x y = true := by
  have hfits := h.fits_frame hb
  rw [pixelMarks_eq] at hpaint
  split_ifs at hpaint with hempty
  · obtain ⟨m, hm, hpoint⟩ := hpaint
    rw [List.mem_singleton.1 hm, Mark.points, List.mem_singleton, Prod.mk.injEq] at hpoint
    exact h.contains_pixelCenter hfits hon hpoint.1 hpoint.2
  · obtain ⟨p, hland, hin⟩ := h.keepsTo_sampledPixel hb x y hon hpaint
    exact h.contains_outerRect hfits hin hland hon

end Pixels

section Rectangles

variable {tx ty s : Int}

theorem frame?_fillRect (hshape : item.shape = .fillRect) (hb : item.frame? = some b) :
    b = ⟨item.coordinate "X", item.coordinate "Y", item.coordinate "WIDTH",
      item.coordinate "HEIGHT"⟩ := by
  obtain ⟨hsides, hx, hy, -⟩ := frame?_eq_some hb
  simp only [sides?, hshape, Option.some.injEq, Prod.mk.injEq] at hsides
  obtain ⟨bx, byy, bw, bh⟩ := b
  simp only [Frame.mk.injEq]
  exact ⟨hx, hy, hsides.1.symm, hsides.2.symm⟩

theorem coordinate_pos_iff (item : Item) (key : String) :
    0 < item.coordinate key ↔ ¬ item.param key ≤ 0 := by
  rw [coordinate, lt_iff rfl (isFinite_ofInt32 _), value_ofNat_zero, value_ofInt32, Words.le_iff,
    Int32.toInt_zero, not_le, Int.cast_pos]

theorem frame?_of_paint_fillRectMarks (hshape : item.shape = .fillRect) {clip : Rect}
    (hpaint : Mark.Paint width height x y (item.fillRectMarks clip)) :
    ∃ b, item.frame? = some b := by
  rw [fillRectMarks] at hpaint
  split_ifs at hpaint with hempty
  · obtain ⟨m, hm, -⟩ := hpaint
    cases hm
  · rw [Bool.or_eq_true, decide_eq_true_iff, decide_eq_true_iff, not_or, ← coordinate_pos_iff,
      ← coordinate_pos_iff] at hempty
    exact ⟨_, frame?_of_sides (by rw [sides?, hshape]) hempty.1 hempty.2⟩

theorem over_iff_of_words {X Y W H : Int32} :
    Over ⟨ofInt32 X, ofInt32 Y, ofInt32 W, ofInt32 H⟩ tx ty s x y ↔
      (X.toInt * s + tx ≤ x.toInt ∧ x.toInt < (X.toInt + W.toInt) * s + tx) ∧
        Y.toInt * s + ty ≤ y.toInt ∧ y.toInt < (Y.toInt + H.toInt) * s + ty := by
  simp only [Over, value_ofInt32]
  norm_cast

theorem Moderate.keepsTo_and_fills_fillRectMarks (h : item.Moderate)
    (hshape : item.shape = .fillRect) (hb : item.frame? = some b) :
    item.KeepsTo b width height (item.fillRectMarks (.ofSize width height)) ∧
      item.Fills b width height (item.fillRectMarks (.ofSize width height)) := by
  have hfits := h.fits_frame hb
  obtain ⟨-, -, -, hwidth, hheight⟩ := frame?_eq_some hb
  obtain rfl := frame?_fillRect hshape hb
  have hroom : ¬ (item.param "WIDTH" ≤ 0 || item.param "HEIGHT" ≤ 0) = true := by
    rw [Bool.or_eq_true, decide_eq_true_iff, decide_eq_true_iff, not_or, ← coordinate_pos_iff,
      ← coordinate_pos_iff]
    exact ⟨hwidth, hheight⟩
  rw [fillRectMarks, if_neg hroom]
  cases hwhole : item.wholeBox? (.ofSize width height) with
  | some marks =>
    obtain ⟨hfill, tx, ty, s, hmoved⟩ := moved_of_wholeBox? hwhole
    rw [hmoved.wholeBox?_eq hfill, Option.some.injEq] at hwhole
    rw [Option.getD_some, ← hwhole]
    exact ⟨h.keepsTo_of_moved hfits hmoved fun x y hon hpaint =>
        over_iff_of_words.2 ((paint_boxMarks_iff hon).1 hpaint),
      h.fills_of_moved hfits hmoved fun x y hon hover =>
        (paint_boxMarks_iff hon).2 (over_iff_of_words.1 hover)⟩
  | none =>
    rw [Option.getD_none, sampledRect]
    exact ⟨h.keepsTo_sample hfits fun q => isSome_boxShade_iff.1,
      h.fills_sample hfits fun q => isSome_boxShade_iff.2⟩

end Rectangles

section Stamps

variable {pattern : Pattern}

theorem frame?_stamp (hshape : item.shape = .stamp) (hstamp : item.stamp = some pattern)
    (hb : item.frame? = some b) :
    b = ⟨item.coordinate "X", item.coordinate "Y", Float.ofNat pattern.width,
      Float.ofNat pattern.height⟩ := by
  obtain ⟨hsides, hx, hy, -⟩ := frame?_eq_some hb
  simp only [sides?, hshape, hstamp, Option.map_some, Option.some.injEq, Prod.mk.injEq] at hsides
  obtain ⟨bx, byy, bw, bh⟩ := b
  simp only [Frame.mk.injEq]
  exact ⟨hx, hy, hsides.1.symm, hsides.2.symm⟩

theorem Moderate.value_sides (h : item.Moderate) (hstamp : item.stamp = some pattern) :
    (value (Float.ofNat pattern.width) = pattern.width ∧
      value (Float.ofNat pattern.height) = pattern.height) ∧ pattern.cells.size ≤ 2 ^ 31 := by
  obtain ⟨hsize, hw, hh, -⟩ := h.stamp pattern hstamp
  have hw' := h.le_of_mul_scale_le hw
  have hh' := h.le_of_mul_scale_le hh
  refine ⟨⟨(isFinite_and_value_ofNat (by omega)).2, (isFinite_and_value_ofNat (by omega)).2⟩, ?_⟩
  have := Nat.mul_le_mul hw' hh'
  omega

theorem isSetAt_of_isOpaque (hsize : pattern.cells.size = pattern.width * pattern.height)
    (hsolid : pattern.isOpaque = true) {col row : Nat} (hcol : col < pattern.width)
    (hrow : row < pattern.height) : pattern.isSetAt col row = true := by
  have hplace : row * pattern.width + col < pattern.cells.size := by
    have hnext : (row + 1) * pattern.width ≤ pattern.height * pattern.width :=
      Nat.mul_le_mul_right _ hrow
    rw [hsize, Nat.mul_comm pattern.width]
    rw [Nat.add_one_mul] at hnext
    omega
  rw [Pattern.isOpaque, Bool.and_eq_true, Array.all_eq_true] at hsolid
  rw [Pattern.isSetAt, Array.getElem?_eq_getElem hplace, beq_iff_eq, Option.some.injEq]
  exact beq_iff_eq.1 (hsolid.2 _ hplace)

theorem Moderate.sides_pos_of_paint_stampMarks (h : item.Moderate)
    (hstamp : item.stamp = some pattern) (hon : (Rect.ofSize width height).contains x y = true)
    (hpaint : Mark.Paint width height x y (item.stampMarks (.ofSize width height))) :
    0 < pattern.width ∧ 0 < pattern.height := by
  simp only [stampMarks, hstamp] at hpaint
  cases hwhole : item.wholeStamp? pattern with
  | some marks =>
    obtain ⟨tx, ty, -, left, top, -, -, rfl⟩ := wholeStamp?_eq_some hwhole
    rw [hwhole, Option.getD_some, Mark.Paint] at hpaint
    simp only [List.mem_singleton, exists_eq_left, Mark.points] at hpaint
    obtain ⟨row, col, hrow, hcol, -⟩ :=
      (mem_bitmapPoints_iff (h.value_sides hstamp).2 hon).1 hpaint
    exact ⟨by omega, by omega⟩
  | none =>
    rw [hwhole, Option.getD_none, paint_sampledStamp_iff] at hpaint
    omega

theorem Moderate.frame?_of_paint_stampMarks (h : item.Moderate) (hshape : item.shape = .stamp)
    (hstamp : item.stamp = some pattern) (hon : (Rect.ofSize width height).contains x y = true)
    (hpaint : Mark.Paint width height x y (item.stampMarks (.ofSize width height))) :
    ∃ b, item.frame? = some b := by
  obtain ⟨hwidth, hheight⟩ := h.sides_pos_of_paint_stampMarks hstamp hon hpaint
  obtain ⟨hw, hh⟩ := h.short_side hstamp
  obtain ⟨⟨hw', hh'⟩, -⟩ := h.value_sides hstamp
  have pos {z : Float} {n : Nat} (hz : z.isFinite = true) (hn : value z = n) (hpos : 0 < n) :
      0 < z := by
    rw [lt_iff rfl hz, value_ofNat_zero, hn]
    exact_mod_cast hpos
  refine ⟨_, frame?_of_sides ?_ (pos hw.isFinite hw' hwidth) (pos hh.isFinite hh' hheight)⟩
  simp only [sides?, hshape, hstamp, Option.map_some]

theorem over_iff_of_sides {X Y : Int32} {W H : Nat} {tx ty : Int}
    (hW : value (Float.ofNat W) = W) (hH : value (Float.ofNat H) = H) :
    Over ⟨ofInt32 X, ofInt32 Y, Float.ofNat W, Float.ofNat H⟩ tx ty 1 x y ↔
      (X.toInt + tx ≤ x.toInt ∧ x.toInt < X.toInt + W + tx) ∧
        Y.toInt + ty ≤ y.toInt ∧ y.toInt < Y.toInt + H + ty := by
  simp only [Over, value_ofInt32, hW, hH, Int.cast_one, mul_one]
  norm_cast

theorem Moderate.keepsTo_stampMarks (h : item.Moderate) (hshape : item.shape = .stamp)
    (hstamp : item.stamp = some pattern) (hb : item.frame? = some b) :
    item.KeepsTo b width height (item.stampMarks (.ofSize width height)) := by
  have hfits := h.fits_frame hb
  obtain rfl := frame?_stamp hshape hstamp hb
  obtain ⟨⟨hW, hH⟩, hsize⟩ := h.value_sides hstamp
  simp only [stampMarks, hstamp]
  cases hwhole : item.wholeStamp? pattern with
  | some marks =>
    obtain ⟨tx, ty, hmoved, left, top, hleft, htop, rfl⟩ := wholeStamp?_eq_some hwhole
    rw [Option.getD_some]
    refine h.keepsTo_of_moved hfits hmoved fun x y hon hpaint => (over_iff_of_sides hW hH).2 ?_
    simp only [Mark.Paint, List.mem_singleton, exists_eq_left, Mark.points] at hpaint
    obtain ⟨row, col, hrow, hcol, -, hx, hy⟩ := (mem_bitmapPoints_iff hsize hon).1 hpaint
    omega
  | none =>
    rw [Option.getD_none]
    intro x y hon hpaint
    obtain ⟨-, ⟨hx, hy⟩, -⟩ := paint_sampledStamp_iff.1 hpaint
    obtain ⟨hfx, hfy, -⟩ := h.lands_logicalCenter x y
    obtain ⟨hlx, hly⟩ := h.abs_value_logicalCenter_le x y
    exact h.exists_lands_of_near hfits
      ⟨h.near_of_toWord64 hfits.x hfits.width hW hfx hlx hx.1 hx.2,
        h.near_of_toWord64 hfits.y hfits.height hH hfy hly hy.1 hy.2⟩

theorem Moderate.fills_stampMarks (h : item.Moderate) (hshape : item.shape = .stamp)
    (hstamp : item.stamp = some pattern) (hsolid : item.isOpaque = true)
    (hb : item.frame? = some b) :
    item.Fills b width height (item.stampMarks (.ofSize width height)) := by
  have hfits := h.fits_frame hb
  obtain rfl := frame?_stamp hshape hstamp hb
  obtain ⟨⟨hW, hH⟩, hsize⟩ := h.value_sides hstamp
  obtain ⟨hcells, -, -, hset⟩ := h.stamp pattern hstamp
  have hset' {col row : Nat} : col < pattern.width → row < pattern.height →
      pattern.isSetAt col row = true := isSetAt_of_isOpaque hcells (hset hsolid hshape)
  simp only [stampMarks, hstamp]
  cases hwhole : item.wholeStamp? pattern with
  | some marks =>
    obtain ⟨tx, ty, hmoved, left, top, hleft, htop, rfl⟩ := wholeStamp?_eq_some hwhole
    rw [Option.getD_some]
    refine h.fills_of_moved hfits hmoved fun x y hon hover => ?_
    obtain ⟨hx, hy⟩ := (over_iff_of_sides hW hH).1 hover
    simp only [Mark.Paint, List.mem_singleton, exists_eq_left, Mark.points]
    obtain ⟨col, hcol⟩ := Int.eq_ofNat_of_zero_le (show 0 ≤ x.toInt - left.toInt by omega)
    obtain ⟨row, hrow⟩ := Int.eq_ofNat_of_zero_le (show 0 ≤ y.toInt - top.toInt by omega)
    exact (mem_bitmapPoints_iff hsize hon).2 ⟨row, col, by omega, by omega,
      hset' (by omega) (by omega), by omega, by omega⟩
  | none =>
    rw [Option.getD_none]
    intro x y hon hin
    obtain ⟨hfx, hfy, -⟩ := h.lands_logicalCenter x y
    have hx := h.toWord64_of_inside hfits.x hfits.width hW hfx hin.1.1 hin.1.2
    have hy := h.toWord64_of_inside hfits.y hfits.height hH hfy hin.2.1 hin.2.2
    refine paint_sampledStamp_iff.2 ⟨hon, ⟨hx, hy⟩, hset' ?_ ?_⟩
    · exact (Int.toNat_lt hx.1).2 hx.2
    · exact (Int.toNat_lt hy.1).2 hy.2

end Stamps

end Item

end PatternScript
