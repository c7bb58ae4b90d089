import PatternScript.Proofs.Plane.Shifts
import PatternScript.Proofs.Sampling.Centers

/-!
# Boxes and stamps that are painted at once

An item that is only moved by whole pixels is painted without sampling. A map counts as a
move although its linear part may differ a little from the identity; as long as that moves no
pixel of the surface by half a pixel, sampling would paint the same pixels.
-/
namespace PatternScript

open Number

/-- The linear part moves no pixel of the surface by half a pixel. -/
def Affine.StaysNear (m : Affine) (width height : Int32) : Prop :=
  m.deviation * (width.toInt + height.toInt + |value m.tx| + |value m.ty|) ≤ 49 / 100

theorem Affine.staysNear_shift (dx dy : Float) (width height : Int32) :
    (shift dx dy).StaysNear width height := by
  rw [StaysNear, deviation_shift, zero_mul]
  norm_num

namespace Item

variable {item : Item} {width height x y : Int32} {tx ty s : Int}

/-- The item is moved by `tx` and `ty`, after it was scaled by `s`. -/
structure Moved (item : Item) (tx ty s : Int) : Prop where
  isShift : item.matrix.isShift = true
  isFinite_tx : item.matrix.tx.isFinite = true
  isFinite_ty : item.matrix.ty.isFinite = true
  isFinite_scale : item.scale.isFinite = true
  value_tx : value item.matrix.tx = tx
  value_ty : value item.matrix.ty = ty
  value_scale : value item.scale = s
  tx_le : |tx| ≤ 2147483647
  ty_le : |ty| ≤ 2147483647
  scale_le : |s| ≤ 2147483647

theorem isFinite_and_value_maxWord :
    (2147483647.0 : Float).isFinite = true ∧ value 2147483647.0 = 2147483647 := by
  have hunpack : (2147483647.0 : Float).toModel.unpack =
      .finite .positive 9007199250546688 (-22) (by decide) := rfl
  refine ⟨rfl, ?_⟩
  rw [value, hunpack, Unpacked.value, Unpacked.signValue, one_mul]
  norm_num

theorem toWord64_of_value {v : Float} {n : Int} (hv : v.isFinite = true) (hn : value v = n)
    (hle : |n| ≤ 2147483647) : Rounding.toZero.toWord64 v = n := by
  have hword := Rounding.whole_intCast .toZero n
  rw [← hn] at hword
  have hbounds := abs_le.1 hle
  rw [Rounding.toWord64_eq hv (by rw [hword]; omega) (by rw [hword]; omega), hword]

theorem isWord_iff {v : Float} (hv : v.isFinite = true) :
    isWord v = true ↔ ∃ n : Int, value v = n ∧ |n| ≤ 2147483647 := by
  obtain ⟨hfinite, hvalue⟩ := isFinite_and_value_maxWord
  rw [isWord, Bool.and_eq_true, decide_eq_true_iff, isWhole_iff hv,
    le_iff (by rwa [isFinite_abs]) hfinite, value_abs, hvalue]
  constructor
  · rintro ⟨⟨n, hn⟩, hle⟩
    rw [hn] at hle
    exact ⟨n, hn, by exact_mod_cast hle⟩
  · rintro ⟨n, hn, hle⟩
    rw [hn]
    exact ⟨⟨n, rfl⟩, by exact_mod_cast hle⟩

theorem exists_of_isWord {v : Float} (h : isWord v = true) : v.isFinite = true ∧
    ∃ n : Int, value v = n ∧ |n| ≤ 2147483647 ∧ Rounding.toZero.toWord64 v = n := by
  have hv : v.isFinite = true := by
    rw [isWord, Bool.and_eq_true] at h
    exact isFinite_of_isWhole h.1
  obtain ⟨n, hn, hle⟩ := (isWord_iff hv).1 h
  exact ⟨hv, n, hn, hle, toWord64_of_value hv hn hle⟩

theorem moved_of_wholeOffset? (h : item.wholeOffset? = some (tx, ty)) :
    ∃ s, item.Moved tx ty s := by
  rw [wholeOffset?] at h
  split_ifs at h with hcond
  simp only [Bool.and_eq_true] at hcond
  obtain ⟨⟨⟨hshift, htx⟩, hty⟩, hscale⟩ := hcond
  obtain ⟨hftx, n₁, hv₁, hle₁, hw₁⟩ := exists_of_isWord htx
  obtain ⟨hfty, n₂, hv₂, hle₂, hw₂⟩ := exists_of_isWord hty
  obtain ⟨hfs, n₃, hv₃, hle₃, -⟩ := exists_of_isWord hscale
  rw [hw₁, hw₂, Option.some.injEq, Prod.mk.injEq] at h
  obtain ⟨rfl, rfl⟩ := h
  exact ⟨n₃, hshift, hftx, hfty, hfs, hv₁, hv₂, hv₃, hle₁, hle₂, hle₃⟩

theorem Moved.wholeOffset?_eq (h : item.Moved tx ty s) : item.wholeOffset? = some (tx, ty) := by
  have htx := (isWord_iff h.isFinite_tx).2 ⟨tx, h.value_tx, h.tx_le⟩
  have hty := (isWord_iff h.isFinite_ty).2 ⟨ty, h.value_ty, h.ty_le⟩
  have hscale := (isWord_iff h.isFinite_scale).2 ⟨s, h.value_scale, h.scale_le⟩
  simp only [wholeOffset?, h.isShift, htx, hty, hscale, Bool.and_true, if_true,
    toWord64_of_value h.isFinite_tx h.value_tx h.tx_le,
    toWord64_of_value h.isFinite_ty h.value_ty h.ty_le]

theorem Moved.toWord64_scale (h : item.Moved tx ty s) :
    Rounding.toZero.toWord64 item.scale = s :=
  toWord64_of_value h.isFinite_scale h.value_scale h.scale_le

theorem abs_toInt_le (n : Int32) : |n.toInt| ≤ 2147483648 := by
  have hbound := Words.bounds n
  rw [abs_le]
  omega

theorem Moved.approx_center (h : item.Moved tx ty s) (hi : item.matrix.invert? = some item.inverse)
    (hnear : item.matrix.StaysNear width height)
    (hon : (Rect.ofSize width height).contains x y = true) :
    Approx (item.unscaledCenter x y).x (x.toInt + 1 / 2 - tx) (249 / 500) ∧
      Approx (item.unscaledCenter x y).y (y.toInt + 1 / 2 - ty) (249 / 500) := by
  have htx : |(tx : ℚ)| ≤ 2147483647 := by exact_mod_cast h.tx_le
  have hty : |(ty : ℚ)| ≤ 2147483647 := by exact_mod_cast h.ty_le
  have hregular : item.matrix.Regular (2 ^ 31) :=
    Affine.regular_of_isShift h.isShift h.isFinite_tx h.isFinite_ty
      (by rw [h.value_tx]; linarith) (by rw [h.value_ty]; linarith)
  obtain ⟨hx, hy⟩ := approx_unscaledCenter hregular le_rfl (by norm_num) hi x y
  obtain ⟨-, hdeviation⟩ := Affine.deviation_le_of_isShift h.isShift
  obtain ⟨hdx, hdy⟩ := Affine.abs_preimage_sub_le le_rfl
    (hdeviation.trans (by norm_num)) (exactCenter x y)
  rw [exactCenter, h.value_tx, h.value_ty] at hdx hdy
  have hdistance : |(x.toInt + 1 / 2 - tx : ℚ)| + |(y.toInt + 1 / 2 - ty : ℚ)| ≤
      width.toInt + height.toInt + |(tx : ℚ)| + |(ty : ℚ)| := by
    obtain ⟨hxon, hyon⟩ := Rect.contains_ofSize.1 hon
    have hx₀ : (0 : ℚ) ≤ x.toInt := by exact_mod_cast hxon.1
    have hx₁ : (x.toInt + 1 : ℚ) ≤ width.toInt := by exact_mod_cast hxon.2
    have hy₀ : (0 : ℚ) ≤ y.toInt := by exact_mod_cast hyon.1
    have hy₁ : (y.toInt + 1 : ℚ) ≤ height.toInt := by exact_mod_cast hyon.2
    have h₁ := abs_sub (x.toInt + 1 / 2 : ℚ) tx
    have h₂ := abs_sub (y.toInt + 1 / 2 : ℚ) ty
    rw [abs_of_nonneg (by linarith : (0 : ℚ) ≤ x.toInt + 1 / 2)] at h₁
    rw [abs_of_nonneg (by linarith : (0 : ℚ) ≤ y.toInt + 1 / 2)] at h₂
    linarith
  have hdrift : 101 / 100 * item.matrix.deviation *
      (|(x.toInt + 1 / 2 - tx : ℚ)| + |(y.toInt + 1 / 2 - ty : ℚ)|) ≤ 4949 / 10000 := by
    rw [Affine.StaysNear, h.value_tx, h.value_ty] at hnear
    have hpos : 0 ≤ item.matrix.deviation :=
      (abs_nonneg _).trans (Affine.entries_le_of_deviation le_rfl).1
    have := mul_le_mul_of_nonneg_left hdistance hpos
    linarith
  have hclose {q : Float} {p u : ℚ} (hq : Approx q p (2 ^ 31 / 2 ^ 43)) (hp : |p - u| ≤
      101 / 100 * item.matrix.deviation *
        (|(x.toInt + 1 / 2 - tx : ℚ)| + |(y.toInt + 1 / 2 - ty : ℚ)|)) :
      Approx q u (249 / 500) := by
    refine ⟨hq.isFinite, ?_⟩
    have htriangle := abs_sub_le (value q) p u
    have herror := hq.error
    norm_num at herror ⊢
    linarith
  exact ⟨hclose hx hdx, hclose hy hdy⟩

section Division

variable {q scale edge : Float} {n t X : Int}

theorem abs_center_le (hn : |n| ≤ 2147483648) (ht : |t| ≤ 2147483647)
    (hq : Approx q (n + 1 / 2 - t) (249 / 500)) : |value q| ≤ 2 ^ 33 := by
  have hn' := abs_le.1 (show |(n : ℚ)| ≤ 2147483648 by exact_mod_cast hn)
  have ht' := abs_le.1 (show |(t : ℚ)| ≤ 2147483647 by exact_mod_cast ht)
  have hq' := abs_le.1 hq.error
  rw [abs_le]
  constructor <;> linarith

theorem nearest_quotient (hscale : scale.isFinite = true) (hs : value scale = s) (hpos : 1 ≤ s)
    (hq : q.isFinite = true) (hle : |value q| ≤ 2 ^ 33) : Nearest (q / scale) (value q / s) := by
  have hs' : (1 : ℚ) ≤ s := by exact_mod_cast hpos
  have h := rounded_div hq hscale (by rw [hs]; linarith)
  rw [hs] at h
  refine h.nearest (abs_lt_limit ?_)
  rw [abs_div, abs_of_pos (by linarith : (0 : ℚ) < s), div_le_iff₀ (by linarith)]
  linarith

theorem le_quotient_iff (hn : |n| ≤ 2147483648) (ht : |t| ≤ 2147483647) (hpos : 1 ≤ s)
    (hle : s ≤ 2147483647) (hscale : scale.isFinite = true) (hs : value scale = s)
    (hedge : edge.isFinite = true) (hX : value edge = X)
    (hq : Approx q (n + 1 / 2 - t) (249 / 500)) : edge ≤ q / scale ↔ X * s + t ≤ n := by
  have hsize := abs_center_le hn ht hq
  have hnear := nearest_quotient hscale hs hpos hq.isFinite hsize
  have hs' : (1 : ℚ) ≤ s := by exact_mod_cast hpos
  have hs0 : (0 : ℚ) < s := by linarith
  obtain ⟨hlow, hhigh⟩ := abs_le.1 hq.error
  rw [le_iff hedge hnear.isFinite, hX]
  constructor
  · intro h
    by_contra hlt
    have hgap : (n + 1 : ℚ) ≤ X * s + t := by exact_mod_cast (show n + 1 ≤ X * s + t by omega)
    have hmax : max |value q / s| (2 ^ (-1022 : Int)) ≤ 2 ^ 33 / s := by
      refine max_le ?_ ?_
      · rw [abs_div, abs_of_pos hs0]
        gcongr
      · have htiny : (2 : ℚ) ^ (-1022 : Int) ≤ 1 := zpow_le_one_of_nonpos₀ one_le_two (by decide)
        have hle' : (s : ℚ) ≤ 2147483647 := by exact_mod_cast hle
        refine htiny.trans ((le_div_iff₀ hs0).2 (by linarith))
    have herror : |value (q / scale) - value q / s| ≤ 1 / 2 ^ 20 / (s : ℚ) := by
      refine hnear.error.trans ?_
      calc max |value q / s| (2 ^ (-1022 : Int)) / 2 ^ 53 ≤ 2 ^ 33 / (s : ℚ) / 2 ^ 53 := by gcongr
        _ = 1 / 2 ^ 20 / (s : ℚ) := by ring
    have hquotient : value q / s ≤ X - 1 / 500 / s := by
      rw [div_le_iff₀ hs0, sub_mul, div_mul_cancel₀ _ hs0.ne']
      linarith
    have hroom : 1 / 2 ^ 20 / (s : ℚ) < 1 / 500 / s := by gcongr; norm_num
    linarith [(abs_le.1 herror).2]
  · intro h
    have h' : (X * s + t : ℚ) ≤ n := by exact_mod_cast h
    rw [← hX]
    refine hnear.le_of_le hedge ?_
    rw [hX, le_div_iff₀ hs0]
    linarith

end Division

section Boxes

theorem span?_eq {scale offset : Int} (position length : Int32) (hscale : |scale| ≤ 2147483647)
    (hoffset : |offset| ≤ 2147483647) : span? position length scale offset =
      some (position.toInt * scale + offset,
        (position.toInt + length.toInt) * scale + offset) := by
  have hproduct (n : Int32) : |n.toInt * scale| ≤ 2147483648 * 2147483647 := by
    rw [abs_mul]
    exact mul_le_mul (abs_toInt_le n) hscale (abs_nonneg _) (by decide)
  have hposition := abs_le.1 (hproduct position)
  have hlength := abs_le.1 (hproduct length)
  have hoffset' := abs_le.1 hoffset
  have hword {n : Int} (hlow : -9223372036854775808 ≤ n) (hhigh : n ≤ 9223372036854775807) :
      word64? n = some n := if_pos ⟨hlow, hhigh⟩
  simp only [span?, Option.bind_eq_bind, Option.pure_def]
  rw [hword (by omega) (by omega), Option.bind_some, hword (by omega) (by omega),
    Option.bind_some, hword (by omega) (by omega), Option.bind_some,
    hword (by omega) (by omega), Option.bind_some, add_mul, add_right_comm]

def boxMarks (clip : Rect) (x₀ x₁ y₀ y₁ : Int) (k : Color) : List Mark :=
  let left := max x₀ clip.minX.toInt
  let right := min x₁ clip.maxX.toInt
  let top := max y₀ clip.minY.toInt
  let bottom := min y₁ clip.maxY.toInt
  if left < right ∧ top < bottom then
    [.box (Int32.ofInt left) (Int32.ofInt top) (Int32.ofInt (right - left))
      (Int32.ofInt (bottom - top)) k]
  else []

theorem color_of_mem_boxMarks {clip : Rect} {x₀ x₁ y₀ y₁ : Int} {k : Color} :
    ∀ m ∈ boxMarks clip x₀ x₁ y₀ y₁ k, m.color = k := by
  intro m hm
  rw [boxMarks] at hm
  split_ifs at hm
  · rw [List.mem_singleton] at hm
    rw [hm, Mark.color]
  · cases hm

theorem toInt_side {a b : Int} {lo hi side : Int32} (hlo : 0 ≤ lo.toInt)
    (hhi : hi.toInt ≤ side.toInt) (hroom : max a lo.toInt < min b hi.toInt) :
    (Int32.ofInt (max a lo.toInt)).toInt = max a lo.toInt ∧
      (Int32.ofInt (min b hi.toInt - max a lo.toInt)).toInt = min b hi.toInt - max a lo.toInt := by
  have hside := Words.bounds side
  exact ⟨Words.toInt_ofInt_of_fits (by omega) (by omega),
    Words.toInt_ofInt_of_fits (by omega) (by omega)⟩

theorem side_iff {a b : Int} {lo hi side start length n : Int32} (hlo : 0 ≤ lo.toInt)
    (hhi : hi.toInt ≤ side.toInt) (hstart : start.toInt = max a lo.toInt)
    (hlength : length.toInt = min b hi.toInt - max a lo.toInt) :
    ((max start 0).toInt ≤ n.toInt ∧ n.toInt < (min (saturatingAdd start length) side).toInt) ↔
      (lo.toInt ≤ n.toInt ∧ n.toInt < hi.toInt) ∧ a ≤ n.toInt ∧ n.toInt < b := by
  have hside := Words.bounds side
  have hn := Words.bounds n
  have hend : start.toInt + length.toInt = min b hi.toInt := by rw [hstart, hlength]; ring
  rw [Words.toInt_max, Words.toInt_min, Words.toInt_saturatingAdd, hend, hstart, Int32.toInt_zero]
  omega

theorem sides_of_room {clip : Rect} {x₀ x₁ y₀ y₁ : Int} (hclip : clip.Inside width height)
    (hroom : max x₀ clip.minX.toInt < min x₁ clip.maxX.toInt ∧
      max y₀ clip.minY.toInt < min y₁ clip.maxY.toInt) :
    (0 ≤ clip.minX.toInt ∧ clip.maxX.toInt ≤ width.toInt) ∧
      (0 ≤ clip.minY.toInt ∧ clip.maxY.toInt ≤ height.toInt) := by
  refine hclip.bounds ?_
  rw [Bool.eq_false_iff, ne_eq, Rect.isEmpty_iff]
  omega

theorem exists_of_mem_boxMarks {clip : Rect} {x₀ x₁ y₀ y₁ : Int} {k : Color} {m : Mark}
    (hclip : clip.Inside width height) (hm : m ∈ boxMarks clip x₀ x₁ y₀ y₁ k) :
    ∃ left top w h, m = .box left top w h k ∧
      (left.toInt = max x₀ clip.minX.toInt ∧ left.toInt + w.toInt = min x₁ clip.maxX.toInt) ∧
      top.toInt = max y₀ clip.minY.toInt ∧ top.toInt + h.toInt = min y₁ clip.maxY.toInt := by
  rw [boxMarks] at hm
  split_ifs at hm with hroom
  · obtain ⟨hx, hy⟩ := sides_of_room hclip hroom
    obtain ⟨hleft, hwidth⟩ := toInt_side hx.1 hx.2 hroom.1
    obtain ⟨htop, hheight⟩ := toInt_side hy.1 hy.2 hroom.2
    refine ⟨_, _, _, _, List.mem_singleton.1 hm, ⟨hleft, ?_⟩, htop, ?_⟩
    · rw [hleft, hwidth, add_sub_cancel]
    · rw [htop, hheight, add_sub_cancel]
  · cases hm

theorem paint_boxMarks_iff_of_inside {clip : Rect} {x₀ x₁ y₀ y₁ : Int} {k : Color}
    (hclip : clip.Inside width height) :
    Mark.Paint width height x y (boxMarks clip x₀ x₁ y₀ y₁ k) ↔ clip.contains x y = true ∧
      (x₀ ≤ x.toInt ∧ x.toInt < x₁) ∧ (y₀ ≤ y.toInt ∧ y.toInt < y₁) := by
  simp only [boxMarks]
  split_ifs with hroom
  · obtain ⟨hx, hy⟩ := sides_of_room hclip hroom
    obtain ⟨hleft, hwidth⟩ := toInt_side hx.1 hx.2 hroom.1
    obtain ⟨htop, hheight⟩ := toInt_side hy.1 hy.2 hroom.2
    simp only [Mark.Paint, List.mem_singleton, exists_eq_left, Mark.points, Rect.mem_points,
      Mark.boxOn, Rect.contains_iff, side_iff hx.1 hx.2 hleft hwidth,
      side_iff hy.1 hy.2 htop hheight]
    exact and_and_and_comm
  · rw [Rect.contains_iff]
    constructor
    · rintro ⟨m, hm, -⟩
      cases hm
    · rintro ⟨hin, hspan⟩
      omega

theorem paint_boxMarks_iff {x₀ x₁ y₀ y₁ : Int} {k : Color}
    (hon : (Rect.ofSize width height).contains x y = true) :
    Mark.Paint width height x y (boxMarks (.ofSize width height) x₀ x₁ y₀ y₁ k) ↔
      (x₀ ≤ x.toInt ∧ x.toInt < x₁) ∧ (y₀ ≤ y.toInt ∧ y.toInt < y₁) := by
  rw [paint_boxMarks_iff_of_inside (Rect.inside_ofSize width height), and_iff_right hon]

theorem Moved.wholeBox?_eq (h : item.Moved tx ty s) (hfill : item.fill = none) (clip : Rect) :
    item.wholeBox? clip = some (boxMarks clip ((item.param "X").toInt * s + tx)
      (((item.param "X").toInt + (item.param "WIDTH").toInt) * s + tx)
      ((item.param "Y").toInt * s + ty)
      (((item.param "Y").toInt + (item.param "HEIGHT").toInt) * s + ty) item.color) := by
  simp only [wholeBox?, hfill, h.wholeOffset?_eq, h.toWord64_scale,
    span?_eq _ _ h.scale_le h.tx_le, span?_eq _ _ h.scale_le h.ty_le, Option.isSome_none,
    Bool.false_eq_true, if_false, Option.bind_eq_bind, Option.bind_some, Option.pure_def]
  exact (apply_ite some _ _ _).symm

theorem moved_of_wholeBox? {clip : Rect} {marks : List Mark}
    (h : item.wholeBox? clip = some marks) :
    item.fill = none ∧ ∃ tx ty s, item.Moved tx ty s := by
  rw [wholeBox?] at h
  cases hfill : item.fill with
  | some pattern =>
    rw [hfill] at h
    cases h
  | none =>
    rw [hfill] at h
    simp only [Option.isSome_none, Bool.false_eq_true, if_false, Option.bind_eq_bind,
      Option.bind_eq_some_iff] at h
    obtain ⟨⟨tx, ty⟩, hoffset, -⟩ := h
    exact ⟨rfl, tx, ty, moved_of_wholeOffset? hoffset⟩

theorem between_quotient_iff {q scale : Float} {n t : Int} (X W : Int32) (hn : |n| ≤ 2147483648)
    (ht : |t| ≤ 2147483647) (hs : 0 ≤ s) (hle : s ≤ 2147483647) (hscale : scale.isFinite = true)
    (hvalue : value scale = s) (hq : Approx q (n + 1 / 2 - t) (249 / 500)) :
    (ofInt32 X ≤ q / scale ∧ q / scale < ofInt32 X + ofInt32 W) ↔
      X.toInt * s + t ≤ n ∧ n < (X.toInt + W.toInt) * s + t := by
  obtain ⟨hfar, hfar'⟩ := isFinite_and_value_add X W
  rcases hs.eq_or_lt with rfl | hpos
  · -- What is shrunk to nothing covers no center.
    have hinfinite := not_isFinite_div hq.isFinite hscale (by rw [hvalue, Int.cast_zero])
    constructor
    · rintro ⟨hnear, hlt⟩
      rw [isFinite_of_between (isFinite_ofInt32 X) hfar hnear hlt] at hinfinite
      cases hinfinite
    · omega
  · have hfinite := (nearest_quotient hscale hvalue hpos hq.isFinite
      (abs_center_le hn ht hq)).isFinite
    rw [lt_iff hfinite hfar, ← not_le, ← le_iff hfar hfinite,
      le_quotient_iff hn ht hpos hle hscale hvalue (isFinite_ofInt32 X) (value_ofInt32 X) hq,
      le_quotient_iff hn ht hpos hle hscale hvalue hfar hfar' hq, not_le]

theorem Moved.paint_sampledRect_iff (h : item.Moved tx ty s) (hs : 0 ≤ s)
    (hi : item.matrix.invert? = some item.inverse) (hnear : item.matrix.StaysNear width height)
    (hon : (Rect.ofSize width height).contains x y = true) :
    Mark.Paint width height x y (item.sampledRect (.ofSize width height)) ↔
      ((item.param "X").toInt * s + tx ≤ x.toInt ∧
          x.toInt < ((item.param "X").toInt + (item.param "WIDTH").toInt) * s + tx) ∧
        ((item.param "Y").toInt * s + ty ≤ y.toInt ∧
          y.toInt < ((item.param "Y").toInt + (item.param "HEIGHT").toInt) * s + ty) := by
  obtain ⟨hx, hy⟩ := h.approx_center hi hnear hon
  have hscale := (abs_le.1 h.scale_le).2
  rw [← between_quotient_iff _ _ (abs_toInt_le x) h.tx_le hs hscale h.isFinite_scale h.value_scale hx,
    ← between_quotient_iff _ _ (abs_toInt_le y) h.ty_le hs hscale h.isFinite_scale h.value_scale hy,
    sampledRect, paint_sample_iff]
  simp only [hon, true_and, ge_iff_le, Bool.and_eq_true, decide_eq_true_eq, Option.isSome_ite,
    and_assoc]
  rfl

theorem exists_samePixels_sampledRect (hi : item.matrix.invert? = some item.inverse)
    (hs : (0 : Float) ≤ item.scale) (hnear : item.matrix.StaysNear width height)
    (hfill : item.fill = none) (h : item.wholeOffset? = some (tx, ty)) :
    ∃ marks, item.wholeBox? (.ofSize width height) = some marks ∧
      Mark.SamePixels width height marks (item.sampledRect (.ofSize width height)) := by
  obtain ⟨s, hmoved⟩ := moved_of_wholeOffset? h
  have hs' : 0 ≤ s := by
    have hzero : (0 : ℚ) ≤ s := by
      rw [← hmoved.value_scale, ← value_zero]
      exact (le_iff isFinite_zero hmoved.isFinite_scale).1 hs
    exact_mod_cast hzero
  refine ⟨_, hmoved.wholeBox?_eq hfill _,
    Mark.samePixels_of_color color_of_mem_boxMarks (fun m hm => ?_) fun x y hon => ?_⟩
  · rw [sampledRect] at hm
    refine color_of_mem_sample (fun p k' hk' => ?_) m hm
    split_ifs at hk'
    rw [colorAt, hfill] at hk'
    exact (Option.some.inj hk').symm
  · rw [paint_boxMarks_iff hon, hmoved.paint_sampledRect_iff hs' hi hnear hon]

end Boxes

end Item

end PatternScript
