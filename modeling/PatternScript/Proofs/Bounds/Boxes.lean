import PatternScript.Proofs.Bounds.Discs
import PatternScript.Proofs.Sampling.FastPaths

/-!
# Painted frames

Pixels, filled rectangles and stamps keep to a frame: each pixel they paint is one on which a
position of the frame lands. And they fill it: a pixel whose center comes from well inside the
frame is painted. Both hold for what is sampled and for what is painted at once.
-/
namespace PatternScript

open Number

namespace Item

variable {item : Item} {b : Frame} {width height x y : Int32} {marks : List Mark} {p : ℚ × ℚ}
  {tx ty s : Int}

def KeepsTo (item : Item) (b : Frame) (width height : Int32) (marks : List Mark) : Prop :=
  ∀ x y, (Rect.ofSize width height).contains x y = true → Mark.Paint width height x y marks →
    ∃ p, item.Lands x y p ∧ item.InFrame b 0 p

def Fills (item : Item) (b : Frame) (width height : Int32) (marks : List Mark) : Prop :=
  ∀ x y, (Rect.ofSize width height).contains x y = true →
    item.InFrame b (1 / 1024) (item.scaled (item.logicalCenter x y)) →
      Mark.Paint width height x y marks

theorem Moderate.exists_lands_of_near (h : item.Moderate) (hb : b.Fits (value item.scale))
    (hp : item.InFrame b (-(1 / 1024)) (item.scaled (item.logicalCenter x y))) :
    ∃ p, item.Lands x y p ∧ item.InFrame b 0 p := by
  have hs := h.one_le_scale
  obtain ⟨-, hx, hy⟩ := h.near_logicalCenter x y
  have inside {c d u : ℚ} (hd : 0 < d) (hlow : c * value item.scale + -(1 / 1024) ≤ u)
      (hhigh : u ≤ (c + d) * value item.scale - -(1 / 1024)) : ∃ u', |u' - u| ≤ 1 / 1024 ∧
        c * value item.scale + 0 ≤ u' ∧ u' ≤ (c + d) * value item.scale - 0 := by
    have hle : c * value item.scale ≤ (c + d) * value item.scale :=
      mul_le_mul_of_nonneg_right (by linarith) (by linarith)
    rcases le_total u (c * value item.scale) with hleft | hleft
    · exact ⟨c * value item.scale, by rw [abs_le]; constructor <;> linarith, by linarith,
        by linarith⟩
    · rcases le_total u ((c + d) * value item.scale) with hright | hright
      · exact ⟨u, by rw [sub_self, abs_zero]; norm_num, by linarith, by linarith⟩
      · exact ⟨(c + d) * value item.scale, by rw [abs_le]; constructor <;> linarith, by linarith,
          by linarith⟩
  obtain ⟨u, hu, hu'⟩ := inside hb.width_pos hp.1.1 hp.1.2
  obtain ⟨v, hv, hv'⟩ := inside hb.height_pos hp.2.1 hp.2.2
  obtain ⟨h₁, h₂⟩ := h.regular.abs_image_sub_le (p := (u, v))
    (q := item.scaled (item.logicalCenter x y)) hu hv
  refine ⟨(u, v), ⟨?_, ?_⟩, hu', hv'⟩
  · linarith [abs_sub_le (item.matrix.image (u, v)).1
      (item.matrix.image (item.scaled (item.logicalCenter x y))).1 (x.toInt + 1 / 2)]
  · linarith [abs_sub_le (item.matrix.image (u, v)).2
      (item.matrix.image (item.scaled (item.logicalCenter x y))).2 (y.toInt + 1 / 2)]

section Sampled

variable {shade : Point → Option Color} {c d z : Float}

theorem Moderate.between_iff (h : item.Moderate) (hc : Short c (value item.scale))
    (hd : Short d (value item.scale)) (hz : z.isFinite = true) :
    (c ≤ z ∧ z < c + d) ↔ value c * value item.scale ≤ value z * value item.scale ∧
      value z * value item.scale < (value c + value d) * value item.scale := by
  have hpos : 0 < value item.scale := by linarith [h.one_le_scale]
  obtain ⟨hsum, hvalue⟩ := hc.isFinite_and_value_add hd h.one_le_scale
  rw [le_iff hc.isFinite hz, lt_iff hz hsum, hvalue, mul_le_mul_iff_of_pos_right hpos,
    mul_lt_mul_iff_of_pos_right hpos]

theorem Moderate.keepsTo_sample (h : item.Moderate) (hb : b.Fits (value item.scale))
    (hshade : ∀ q, (shade q).isSome = true →
      (b.x ≤ q.x ∧ q.x < b.x + b.width) ∧ b.y ≤ q.y ∧ q.y < b.y + b.height) :
    item.KeepsTo b width height (item.sample (.ofSize width height) shade) := by
  intro x y _ hpaint
  obtain ⟨hfx, hfy, hland⟩ := h.lands_logicalCenter x y
  obtain ⟨hx, hy⟩ := hshade _ (paint_sample_iff.1 hpaint).2
  obtain ⟨hx₀, hx₁⟩ := (h.between_iff hb.x hb.width hfx).1 hx
  obtain ⟨hy₀, hy₁⟩ := (h.between_iff hb.y hb.height hfy).1 hy
  refine ⟨_, hland, ?_⟩
  simp only [InFrame, scaled, add_zero, sub_zero]
  exact ⟨⟨hx₀, hx₁.le⟩, hy₀, hy₁.le⟩

theorem Moderate.fills_sample (h : item.Moderate) (hb : b.Fits (value item.scale))
    (hshade : ∀ q, (b.x ≤ q.x ∧ q.x < b.x + b.width) ∧ b.y ≤ q.y ∧ q.y < b.y + b.height →
      (shade q).isSome = true) :
    item.Fills b width height (item.sample (.ofSize width height) shade) := by
  intro x y hon hin
  obtain ⟨hfx, hfy, -⟩ := h.lands_logicalCenter x y
  simp only [InFrame, scaled] at hin
  obtain ⟨⟨hx₀, hx₁⟩, hy₀, hy₁⟩ := hin
  refine paint_sample_iff.2 ⟨hon, hshade _ ⟨?_, ?_⟩⟩
  · exact (h.between_iff hb.x hb.width hfx).2 ⟨by linarith, by linarith⟩
  · exact (h.between_iff hb.y hb.height hfy).2 ⟨by linarith, by linarith⟩

theorem isSome_boxShade_iff {q : Point} {u v w h : Float} {k : Color} :
    (if q.x ≥ u && q.x < u + w && q.y ≥ v && q.y < v + h then some k else none).isSome = true ↔
      (u ≤ q.x ∧ q.x < u + w) ∧ v ≤ q.y ∧ q.y < v + h := by
  simp only [Option.isSome_ite, Bool.and_eq_true, decide_eq_true_eq, ge_iff_le, and_assoc]

theorem Moderate.near_of_toWord64 (h : item.Moderate) (hc : Short c (value item.scale))
    (hd : Short d (value item.scale)) {n : Nat} (hn : value d = n) (hz : z.isFinite = true)
    (hz' : |value z| ≤ 2 ^ 37) (hcell : 0 ≤ Rounding.down.toWord64 (z - c))
    (hcell' : Rounding.down.toWord64 (z - c) < n) :
    value c * value item.scale + -(1 / 1024) ≤ value z * value item.scale ∧
      value z * value item.scale ≤ (value c + value d) * value item.scale - -(1 / 1024) := by
  have hs := h.one_le_scale
  have hc' := hc.abs_value_le hs
  have hd' := hd.abs_value_le hs
  have hnear := (rounded_sub hz hc.isFinite).nearest (abs_lt_limit (by
    linarith [abs_sub (value z) (value c)]))
  have hn' : n ≤ 2 ^ 15 := by
    rw [hn, Nat.abs_cast] at hd'
    exact_mod_cast hd'
  rw [Rounding.toWord64, Rounding.within_eq hnear.isFinite] at hcell hcell'
  have hfloor : 0 ≤ ⌊value (z - c)⌋ ∧ ⌊value (z - c)⌋ < n := by
    have hwhole : Rounding.down.whole (value (z - c)) = ⌊value (z - c)⌋ := rfl
    rw [hwhole] at hcell hcell'
    omega
  have hlow : 0 ≤ value (z - c) := Int.floor_nonneg.1 hfloor.1
  have hhigh : value (z - c) < value d := by
    rw [hn]
    exact_mod_cast Int.floor_lt.1 hfloor.2
  have herror := abs_le.1 (hnear.abs_sub_le (B := 2 ^ 15)
    (by rw [abs_of_nonneg hlow]; linarith [(abs_le.1 hd').2]) (by norm_num))
  have hlow' := mul_le_mul_of_nonneg_right (show value c - 2 ^ 16 / 2 ^ 53 ≤ value z by linarith)
    (show 0 ≤ value item.scale by linarith)
  have hhigh' := mul_le_mul_of_nonneg_right
    (show value z ≤ value c + value d + 2 ^ 16 / 2 ^ 53 by linarith)
    (show 0 ≤ value item.scale by linarith)
  have hle := h.scale_le
  constructor <;> linarith

theorem Moderate.toWord64_of_inside (h : item.Moderate) (hc : Short c (value item.scale))
    (hd : Short d (value item.scale)) {n : Nat} (hn : value d = n) (hz : z.isFinite = true)
    (hlow : value c * value item.scale + 1 / 1024 ≤ value z * value item.scale)
    (hhigh : value z * value item.scale ≤ (value c + value d) * value item.scale - 1 / 1024) :
    0 ≤ Rounding.down.toWord64 (z - c) ∧ Rounding.down.toWord64 (z - c) < n := by
  have hs := h.one_le_scale
  have hle := h.scale_le
  have hd' := hd.abs_value_le hs
  have hpos : 0 < value item.scale := by linarith
  have hlow' : value c ≤ value z := le_of_mul_le_mul_right (by linarith) hpos
  -- Doubles tell the last cell from the next one, even where the scale is greatest.
  have hhigh' : value z - value c ≤ value d - 1 / 2 ^ 25 := by
    refine le_of_mul_le_mul_right ?_ hpos
    linarith
  have hsize : |value z - value c| ≤ 2 ^ 15 := by
    rw [abs_of_nonneg (by linarith)]
    linarith [(abs_le.1 hd').2]
  have hdiff := Approx.of_rounded (rounded_sub hz hc.isFinite) hsize (by norm_num) (by norm_num)
    (q := value z - value c) (ε := 0) (by rw [sub_self, abs_zero])
  have hnear := (rounded_sub hz hc.isFinite).nearest (abs_lt_limit (hsize.trans (by norm_num)))
  have hpositive : 0 ≤ value (z - c) := by
    rw [← value_zero]
    exact hnear.le_of_le isFinite_zero (by rw [value_zero]; linarith)
  have hless : value (z - c) < n := by
    rw [← hn]
    linarith [(abs_le.1 hdiff.error).2]
  have hn' : n ≤ 2 ^ 15 := by
    rw [hn, Nat.abs_cast] at hd'
    exact_mod_cast hd'
  have hfloor : 0 ≤ ⌊value (z - c)⌋ := Int.floor_nonneg.2 hpositive
  have hfloor' : ⌊value (z - c)⌋ < n := Int.floor_lt.2 (by exact_mod_cast hless)
  have hwhole : Rounding.down.whole (value (z - c)) = ⌊value (z - c)⌋ := rfl
  rw [Rounding.toWord64_eq hnear.isFinite (by omega) (by omega), hwhole]
  exact ⟨hfloor, hfloor'⟩

end Sampled

section Moved

def Over (b : Frame) (tx ty s : Int) (x y : Int32) : Prop :=
  (value b.x * s + tx ≤ x.toInt ∧ (x.toInt + 1 : ℚ) ≤ (value b.x + value b.width) * s + tx) ∧
    value b.y * s + ty ≤ y.toInt ∧ (y.toInt + 1 : ℚ) ≤ (value b.y + value b.height) * s + ty

theorem Moderate.keepsTo_of_moved (h : item.Moderate) (hb : b.Fits (value item.scale))
    (hmoved : item.Moved tx ty s)
    (hpaint : ∀ x y, (Rect.ofSize width height).contains x y = true →
      Mark.Paint width height x y marks → Over b tx ty s x y) :
    item.KeepsTo b width height marks := by
  intro x y hon hpainted
  have hs := h.one_le_scale
  obtain ⟨⟨hx₀, hx₁⟩, hy₀, hy₁⟩ := hpaint x y hon hpainted
  rw [← hmoved.value_scale] at hx₀ hx₁ hy₀ hy₁
  have hX := abs_le.1 (hb.x.abs_mul_le hs)
  have hW := abs_le.1 (hb.width.abs_mul_le hs)
  have hY := abs_le.1 (hb.y.abs_mul_le hs)
  have hH := abs_le.1 (hb.height.abs_mul_le hs)
  obtain ⟨h₁, h₂⟩ := abs_image_sub_moved_le hmoved.isShift
    (p := (x.toInt + 1 / 2 - tx, y.toInt + 1 / 2 - ty))
    (by rw [abs_le]; constructor <;> linarith) (by rw [abs_le]; constructor <;> linarith)
  rw [hmoved.value_tx, sub_add_cancel] at h₁
  rw [hmoved.value_ty, sub_add_cancel] at h₂
  refine ⟨_, ⟨h₁, h₂⟩, ⟨?_, ?_⟩, ?_, ?_⟩ <;> dsimp only <;> linarith

theorem Moderate.fills_of_moved (h : item.Moderate) (hb : b.Fits (value item.scale))
    (hmoved : item.Moved tx ty s)
    (hpaint : ∀ x y, (Rect.ofSize width height).contains x y = true → Over b tx ty s x y →
      Mark.Paint width height x y marks) :
    item.Fills b width height marks := by
  intro x y hon hin
  have hs := h.one_le_scale
  obtain ⟨⟨hx₀, hx₁⟩, hy₀, hy₁⟩ := hin
  obtain ⟨-, -, hland⟩ := h.lands_logicalCenter x y
  have hX := abs_le.1 (hb.x.abs_mul_le hs)
  have hW := abs_le.1 (hb.width.abs_mul_le hs)
  have hY := abs_le.1 (hb.y.abs_mul_le hs)
  have hH := abs_le.1 (hb.height.abs_mul_le hs)
  obtain ⟨h₁, h₂⟩ := abs_image_sub_moved_le hmoved.isShift
    (p := item.scaled (item.logicalCenter x y)) (by rw [abs_le]; constructor <;> linarith)
    (by rw [abs_le]; constructor <;> linarith)
  obtain ⟨hl₁, hl₂⟩ := hland
  rw [hmoved.value_tx, abs_le] at h₁
  rw [hmoved.value_ty, abs_le] at h₂
  rw [abs_le] at hl₁ hl₂
  -- The ends of the frame are whole, so the pixel is on their right side if its center nearly is.
  have before {c : Float} {t n : Int} (hc : Short c (value item.scale))
      (hlt : value c * value item.scale + t < n + 1) : value c * s + t ≤ n := by
    obtain ⟨k, hk⟩ := hc.whole
    rw [hk, hmoved.value_scale] at hlt
    rw [hk]
    exact_mod_cast Int.lt_add_one_iff.1 (by exact_mod_cast hlt : k * s + t < n + 1)
  have after {c d : Float} {t n : Int} (hc : Short c (value item.scale))
      (hd : Short d (value item.scale)) (hlt : n < (value c + value d) * value item.scale + t) :
      (n + 1 : ℚ) ≤ (value c + value d) * s + t := by
    obtain ⟨k, hk⟩ := hc.whole
    obtain ⟨l, hl⟩ := hd.whole
    rw [hk, hl, hmoved.value_scale] at hlt
    rw [hk, hl]
    exact_mod_cast Int.add_one_le_iff.2 (by exact_mod_cast hlt : n < (k + l) * s + t)
  refine hpaint x y hon ⟨⟨before hb.x ?_, after hb.x hb.width ?_⟩, before hb.y ?_,
    after hb.y hb.height ?_⟩ <;> linarith

end Moved

end Item

end PatternScript
