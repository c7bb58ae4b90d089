import PatternScript.Proofs.Bounds.Moderate
import PatternScript.Proofs.Bounds.Rounding

/-!
# The frames of boxes

The corners of a frame are where the map sends the corners of a box of whole lengths. What lies
in the box is sent between them, and what is sent well between them lies in the box, when the
map keeps or swaps the axes.
-/
namespace PatternScript

open Number

structure Number.Short (c : Float) (s : ℚ) : Prop where
  isFinite : c.isFinite = true
  whole : ∃ n : Int, value c = n
  reach : |value c| * s ≤ 2 ^ 15

structure Frame.Fits (b : Frame) (s : ℚ) : Prop where
  x : Short b.x s
  y : Short b.y s
  width : Short b.width s
  height : Short b.height s
  width_pos : 0 < value b.width
  height_pos : 0 < value b.height

def Frame.corner (b : Frame) (right below : Bool) : Point :=
  ⟨if right then b.x + b.width else b.x, if below then b.y + b.height else b.y⟩

namespace Number.Short

variable {c d : Float} {s : ℚ}

theorem abs_value_le (h : Short c s) (hs : 1 ≤ s) : |value c| ≤ 2 ^ 15 :=
  (le_mul_of_one_le_right (abs_nonneg _) hs).trans h.reach

theorem abs_mul_le (h : Short c s) (hs : 1 ≤ s) : |value c * s| ≤ 2 ^ 15 := by
  rw [abs_mul, abs_of_pos (show 0 < s by linarith)]
  exact h.reach

theorem one_le (h : Short c s) (hpos : 0 < value c) : 1 ≤ value c := by
  obtain ⟨n, hn⟩ := h.whole
  rw [hn] at hpos ⊢
  exact_mod_cast hpos

theorem isFinite_and_value_add (hc : Short c s) (hd : Short d s) (hs : 1 ≤ s) :
    (c + d).isFinite = true ∧ value (c + d) = value c + value d := by
  obtain ⟨m, hm⟩ := hc.whole
  obtain ⟨n, hn⟩ := hd.whole
  have hc' := hc.abs_value_le hs
  have hd' := hd.abs_value_le hs
  rw [hm] at hc'
  rw [hn] at hd'
  have hm' : |m| ≤ 2 ^ 15 := by exact_mod_cast hc'
  have hn' : |n| ≤ 2 ^ 15 := by exact_mod_cast hd'
  have hsum : |m + n| < 2 ^ 53 := lt_of_le_of_lt (abs_add_le m n) (by omega)
  have h := rounded_add hc.isFinite hd.isFinite
  rw [hm, hn, ← Int.cast_add] at h ⊢
  have hnear := h.nearest (abs_intCast_lt_limit hsum)
  exact ⟨hnear.isFinite, hnear.eq_intCast hsum⟩

theorem isFinite_and_value_middle (hc : Short c s) (hd : Short d s) (hs : 1 ≤ s) :
    (c + d / 2.0).isFinite = true ∧ value (c + d / 2.0) = value c + value d / 2 := by
  obtain ⟨m, hm⟩ := hc.whole
  obtain ⟨n, hn⟩ := hd.whole
  have hc' := hc.abs_value_le hs
  have hd' := hd.abs_value_le hs
  rw [hm] at hc'
  rw [hn] at hd'
  have hm' := abs_le.1 (show |m| ≤ 2 ^ 15 by exact_mod_cast hc')
  have hn' := abs_le.1 (show |n| ≤ 2 ^ 15 by exact_mod_cast hd')
  have half {k : Int} {z : Float} (hk : |k| < 2 ^ 20) (hz : Rounded z (k / 2)) :
      z.isFinite = true ∧ value z = k / 2 := by
    obtain ⟨y, hy, hvalue⟩ := exists_value (n := k) (e := -1) (hk.trans (by decide)) (by decide)
      (by decide)
    have hlimit : |(k / 2 : ℚ)| ≤ 2 ^ 200 := by
      have hk' : |(k : ℚ)| < 2 ^ 20 := by exact_mod_cast hk
      rw [abs_div, abs_two]
      linarith [abs_nonneg (k : ℚ)]
    have hnear := hz.nearest (abs_lt_limit hlimit)
    refine ⟨hnear.isFinite, hnear.eq_of_eq hy ?_⟩
    rw [hvalue, zpow_neg_one, div_eq_mul_inv]
  have hdiv := rounded_div hd.isFinite isFinite_two (by rw [value_two]; norm_num)
  rw [value_two, hn] at hdiv
  obtain ⟨hfinite, hvalue⟩ := half (abs_lt.2 (by omega)) hdiv
  have hadd := rounded_add hc.isFinite hfinite
  rw [hvalue, hm, show (m + n / 2 : ℚ) = ((2 * m + n : Int) : ℚ) / 2 by push_cast; ring] at hadd
  obtain ⟨hfinite', hvalue'⟩ := half (abs_lt.2 (by omega)) hadd
  refine ⟨hfinite', hvalue'.trans ?_⟩
  rw [hm, hn]
  push_cast
  ring

theorem least (hc : Short c s) (hd : Short d s) : Short (least c d) s := by
  rw [Number.least]
  split_ifs
  · exact hd
  · exact hc
  · exact hd
  · exact hc

end Number.Short

namespace Item

variable {item : Item} {b : Frame} {x y width height : Int32} {p : ℚ × ℚ} {δ : ℚ}

theorem Moderate.short_coordinate (h : item.Moderate) (key : String) :
    Short (item.coordinate key) (value item.scale) := by
  refine ⟨isFinite_ofInt32 _, ⟨_, value_ofInt32 _⟩, ?_⟩
  rw [coordinate, value_ofInt32]
  exact h.reach key

theorem Moderate.short_one (h : item.Moderate) : Short 1 (value item.scale) := by
  refine ⟨isFinite_one, ⟨1, by rw [value_one, Int.cast_one]⟩, ?_⟩
  rw [value_one, abs_one, one_mul]
  exact h.scale_le

theorem Moderate.le_of_mul_scale_le (h : item.Moderate) {n : Nat}
    (hn : n * value item.scale ≤ 2 ^ 15) : n ≤ 2 ^ 15 := by
  have hle : (n : ℚ) ≤ 2 ^ 15 :=
    (le_mul_of_one_le_right (Nat.cast_nonneg n) h.one_le_scale).trans hn
  exact_mod_cast hle

theorem Moderate.short_side (h : item.Moderate) {pattern : Pattern}
    (hp : item.stamp = some pattern) : Short (Float.ofNat pattern.width) (value item.scale) ∧
      Short (Float.ofNat pattern.height) (value item.scale) := by
  have side {n : Nat} (hn : n * value item.scale ≤ 2 ^ 15) :
      Short (Float.ofNat n) (value item.scale) := by
    have hlt := h.le_of_mul_scale_le hn
    obtain ⟨hfinite, hvalue⟩ := isFinite_and_value_ofNat (m := n) (by omega)
    refine ⟨hfinite, ⟨n, by rw [hvalue, Int.cast_natCast]⟩, ?_⟩
    rwa [hvalue, abs_of_nonneg (Nat.cast_nonneg n)]
  obtain ⟨-, hw, hh, -⟩ := h.stamp pattern hp
  exact ⟨side hw, side hh⟩

def sides? (item : Item) : Option (Float × Float) :=
  match item.shape with
  | .pixel | .fillPixel => some (1, 1)
  | .rect | .fillRect => some (item.coordinate "WIDTH", item.coordinate "HEIGHT")
  | .stamp => item.stamp.map fun p => (Float.ofNat p.width, Float.ofNat p.height)
  | .line | .circle | .fillCircle => none

theorem frame?_eq (item : Item) : item.frame? = match item.sides? with
    | some (w, h) =>
      if w > 0 && h > 0 then some ⟨item.coordinate "X", item.coordinate "Y", w, h⟩ else none
    | none => none := rfl

theorem frame?_of_sides {w v : Float} (hs : item.sides? = some (w, v)) (hw : 0 < w) (hv : 0 < v) :
    item.frame? = some ⟨item.coordinate "X", item.coordinate "Y", w, v⟩ := by
  rw [frame?_eq, hs]
  exact if_pos (by simp [hw, hv])

theorem frame?_eq_some (hb : item.frame? = some b) : item.sides? = some (b.width, b.height) ∧
    b.x = item.coordinate "X" ∧ b.y = item.coordinate "Y" ∧ 0 < b.width ∧ 0 < b.height := by
  rw [frame?_eq] at hb
  cases hsides : item.sides? with
  | none =>
    rw [hsides] at hb
    cases hb
  | some sides =>
    obtain ⟨w, h⟩ := sides
    rw [hsides] at hb
    dsimp only at hb
    split_ifs at hb with hpos
    rw [Bool.and_eq_true, decide_eq_true_iff, decide_eq_true_iff] at hpos
    rw [Option.some.injEq] at hb
    subst hb
    exact ⟨rfl, rfl, rfl, hpos.1, hpos.2⟩

theorem Moderate.short_sides (h : item.Moderate) {w v : Float} (hs : item.sides? = some (w, v)) :
    Short w (value item.scale) ∧ Short v (value item.scale) := by
  rw [sides?] at hs
  split at hs
  · cases hs
    exact ⟨h.short_one, h.short_one⟩
  · cases hs
    exact ⟨h.short_one, h.short_one⟩
  · cases hs
    exact ⟨h.short_coordinate _, h.short_coordinate _⟩
  · cases hs
    exact ⟨h.short_coordinate _, h.short_coordinate _⟩
  · obtain ⟨pattern, hpattern, heq⟩ := Option.map_eq_some_iff.1 hs
    cases heq
    exact h.short_side hpattern
  all_goals cases hs

theorem Moderate.fits_frame (h : item.Moderate) (hb : item.frame? = some b) :
    b.Fits (value item.scale) := by
  obtain ⟨hsides, hx, hy, hwidth, hheight⟩ := frame?_eq_some hb
  obtain ⟨hw, hv⟩ := h.short_sides hsides
  refine ⟨hx ▸ h.short_coordinate "X", hy ▸ h.short_coordinate "Y", hw, hv, ?_, ?_⟩
  · exact value_ofNat_zero ▸ (lt_iff rfl hw.isFinite).1 hwidth
  · exact value_ofNat_zero ▸ (lt_iff rfl hv.isFinite).1 hheight

/-- The scaled position lies in the frame, and not nearer than `δ` to its border. -/
def InFrame (item : Item) (b : Frame) (δ : ℚ) (p : ℚ × ℚ) : Prop :=
  (value b.x * value item.scale + δ ≤ p.1 ∧
    p.1 ≤ (value b.x + value b.width) * value item.scale - δ) ∧
  value b.y * value item.scale + δ ≤ p.2 ∧
    p.2 ≤ (value b.y + value b.height) * value item.scale - δ

theorem corners_eq (item : Item) (b : Frame) : item.corners b =
    [item.toScreen (b.corner false false), item.toScreen (b.corner true false),
      item.toScreen (b.corner true true), item.toScreen (b.corner false true)] := rfl

theorem mem_corners {q : Point} :
    q ∈ item.corners b ↔ ∃ right below, q = item.toScreen (b.corner right below) := by
  simp only [corners_eq, List.mem_cons, List.not_mem_nil, or_false, Bool.exists_bool]
  constructor
  · rintro (h | h | h | h)
    exacts [.inl (.inl h), .inr (.inl h), .inr (.inr h), .inl (.inr h)]
  · rintro ((h | h) | h | h)
    exacts [.inl h, .inr (.inr (.inr h)), .inr (.inl h), .inr (.inr (.inl h))]

def cornerAt (item : Item) (b : Frame) (right below : Bool) : ℚ × ℚ :=
  ((value b.x + if right then value b.width else 0) * value item.scale,
    (value b.y + if below then value b.height else 0) * value item.scale)

theorem Moderate.abs_cornerAt_le (h : item.Moderate) (hb : b.Fits (value item.scale))
    (right below : Bool) :
    |(item.cornerAt b right below).1| ≤ 2 ^ 16 ∧ |(item.cornerAt b right below).2| ≤ 2 ^ 16 := by
  have hs := h.one_le_scale
  have edge {c d : Float} (hc : Short c (value item.scale)) (hd : Short d (value item.scale))
      (far : Bool) : |(value c + if far then value d else 0) * value item.scale| ≤ 2 ^ 16 := by
    have hc' := hc.abs_mul_le hs
    have hd' := hd.abs_mul_le hs
    have hsum := abs_add_le (value c * value item.scale) (value d * value item.scale)
    cases far with
    | false =>
      rw [if_neg Bool.false_ne_true, add_zero]
      linarith
    | true =>
      rw [if_pos rfl, add_mul]
      linarith
  exact ⟨edge hb.x hb.width right, edge hb.y hb.height below⟩

theorem Moderate.approx_corner (h : item.Moderate) (hb : b.Fits (value item.scale))
    (right below : Bool) :
    Approx (item.toScreen (b.corner right below)).x
        (item.matrix.image (item.cornerAt b right below)).1 (1 / 2 ^ 31) ∧
      Approx (item.toScreen (b.corner right below)).y
        (item.matrix.image (item.cornerAt b right below)).2 (1 / 2 ^ 31) := by
  have hs := h.one_le_scale
  have edge {c d : Float} (hc : Short c (value item.scale)) (hd : Short d (value item.scale))
      (far : Bool) : (if far then c + d else c).isFinite = true ∧
        value (if far then c + d else c) = value c + if far then value d else 0 := by
    cases far with
    | false => exact ⟨hc.isFinite, (add_zero _).symm⟩
    | true => exact hc.isFinite_and_value_add hd hs
  obtain ⟨hx, hx'⟩ := edge hb.x hb.width right
  obtain ⟨hy, hy'⟩ := edge hb.y hb.height below
  have hscaled : item.scaled (b.corner right below) = item.cornerAt b right below := by
    rw [scaled, cornerAt, Frame.corner, hx', hy']
  obtain ⟨hfst, hsnd⟩ := h.abs_cornerAt_le hb right below
  rw [← hscaled] at hfst hsnd ⊢
  exact h.approx_toScreen hx hy (hfst.trans (by norm_num)) (hsnd.trans (by norm_num))

theorem Moderate.encloses_corners (h : item.Moderate) (hb : b.Fits (value item.scale)) :
    (ExactBox.ofPoints (item.corners b)).Encloses (item.corners b) := by
  refine ExactBox.encloses_ofPoints fun q hq => ?_
  obtain ⟨right, below, rfl⟩ := mem_corners.1 hq
  obtain ⟨hx, hy⟩ := h.approx_corner hb right below
  rw [Point.isFinite, hx.isFinite, hy.isFinite, Bool.and_self]

theorem exists_cornerAt_le (k l : ℚ) (hp : item.InFrame b 0 p) : ∃ right below,
    k * (item.cornerAt b right below).1 + l * (item.cornerAt b right below).2 ≤
      k * p.1 + l * p.2 := by
  have side (k : ℚ) {u c d s : ℚ} (hu : c * s + 0 ≤ u ∧ u ≤ (c + d) * s - 0) :
      ∃ far : Bool, k * ((c + if far then d else 0) * s) ≤ k * u := by
    rcases le_total 0 k with hk | hk
    · exact ⟨false, mul_le_mul_of_nonneg_left (by simpa using hu.1) hk⟩
    · exact ⟨true, mul_le_mul_of_nonpos_left (by simpa using hu.2) hk⟩
  obtain ⟨right, hright⟩ := side k hp.1
  obtain ⟨below, hbelow⟩ := side l hp.2
  exact ⟨right, below, add_le_add hright hbelow⟩

section Between

variable {u u₀ u₁ : ℚ}

theorem between_of_factor {k a b : ℚ} (hk : |k| ≤ 2) (ha : u₀ ≤ a ∧ a ≤ u₁) (hb : u₀ ≤ b ∧ b ≤ u₁)
    (hlow : 5 / 16 ≤ k * (u - a)) (hhigh : 5 / 16 ≤ k * (b - u)) :
    u₀ + 1 / 1024 ≤ u ∧ u ≤ u₁ - 1 / 1024 := by
  have gap {k t : ℚ} (hk₀ : 0 ≤ k) (hk₁ : k ≤ 2) (h : 5 / 16 ≤ k * t) : 5 / 32 ≤ t := by
    rcases le_total t 0 with ht | ht
    · linarith [mul_nonpos_of_nonneg_of_nonpos hk₀ ht]
    · linarith [mul_le_mul_of_nonneg_right hk₁ ht]
  obtain ⟨hk₁, hk₂⟩ := abs_le.1 hk
  rcases le_total 0 k with hpos | hneg
  · have h₁ := gap hpos hk₂ hlow
    have h₂ := gap hpos hk₂ hhigh
    constructor <;> linarith
  · have h₁ := gap (k := -k) (t := a - u) (by linarith) (by linarith) (by linarith)
    have h₂ := gap (k := -k) (t := u - b) (by linarith) (by linarith) (by linarith)
    constructor <;> linarith

end Between

theorem Moderate.image_between (h : item.Moderate) (hb : b.Fits (value item.scale))
    (hp : item.InFrame b 0 p) :
    let e := ExactBox.ofPoints (item.corners b)
    (value e.minX - 1 / 2 ^ 31 ≤ (item.matrix.image p).1 ∧
        (item.matrix.image p).1 ≤ value e.maxX + 1 / 2 ^ 31) ∧
      value e.minY - 1 / 2 ^ 31 ≤ (item.matrix.image p).2 ∧
        (item.matrix.image p).2 ≤ value e.maxY + 1 / 2 ^ 31 := by
  intro e
  have hencloses := h.encloses_corners hb
  have hcorner (right below : Bool) := h.approx_corner hb right below
  have hmem (right below : Bool) :
      item.toScreen (b.corner right below) ∈ item.corners b := mem_corners.2 ⟨right, below, rfl⟩
  simp only [Affine.image] at hcorner ⊢
  refine ⟨⟨?_, ?_⟩, ?_, ?_⟩
  · obtain ⟨right, below, hle⟩ :=
      exists_cornerAt_le (value item.matrix.xx) (value item.matrix.xy) hp
    have hmin := hencloses.minX.2 ⟨_, hmem right below, rfl⟩
    linarith [(abs_le.1 (hcorner right below).1.error).2]
  · obtain ⟨right, below, hle⟩ :=
      exists_cornerAt_le (-value item.matrix.xx) (-value item.matrix.xy) hp
    have hmax := hencloses.maxX.2 ⟨_, hmem right below, rfl⟩
    linarith [(abs_le.1 (hcorner right below).1.error).1]
  · obtain ⟨right, below, hle⟩ :=
      exists_cornerAt_le (value item.matrix.yx) (value item.matrix.yy) hp
    have hmin := hencloses.minY.2 ⟨_, hmem right below, rfl⟩
    linarith [(abs_le.1 (hcorner right below).2.error).2]
  · obtain ⟨right, below, hle⟩ :=
      exists_cornerAt_le (-value item.matrix.yx) (-value item.matrix.yy) hp
    have hmax := hencloses.maxY.2 ⟨_, hmem right below, rfl⟩
    linarith [(abs_le.1 (hcorner right below).2.error).1]

theorem Moderate.contains_outerRect (h : item.Moderate) (hb : b.Fits (value item.scale))
    (hp : item.InFrame b 0 p) (hland : item.Lands x y p)
    (hon : (Rect.ofSize width height).contains x y = true) :
    ((ExactBox.ofPoints (item.corners b)).outerRect 0).contains x y = true := by
  obtain ⟨⟨hminX, hmaxX⟩, hminY, hmaxY⟩ := h.image_between hb hp
  obtain ⟨hx₁, hx₂⟩ := abs_le.1 hland.1
  obtain ⟨hy₁, hy₂⟩ := abs_le.1 hland.2
  refine ExactBox.contains_outerRect_of_center (h.encloses_corners hb).isFinite le_rfl hon
    ⟨?_, ?_⟩ ⟨?_, ?_⟩ <;> linarith

theorem Moderate.beyond_corners (h : item.Moderate) (hb : b.Fits (value item.scale))
    (hland : item.Lands x y p) (hon : (Rect.ofSize width height).contains x y = true)
    (hin : (ExactBox.ofPoints (item.corners b)).innerRect.contains x y = true) :
    ((∃ r d, (item.matrix.image (item.cornerAt b r d)).1 + 3 / 8 ≤ (item.matrix.image p).1) ∧
      ∃ r d, (item.matrix.image p).1 + 3 / 8 ≤ (item.matrix.image (item.cornerAt b r d)).1) ∧
    (∃ r d, (item.matrix.image (item.cornerAt b r d)).2 + 3 / 8 ≤ (item.matrix.image p).2) ∧
      ∃ r d, (item.matrix.image p).2 + 3 / 8 ≤ (item.matrix.image (item.cornerAt b r d)).2 := by
  have hencloses := h.encloses_corners hb
  obtain ⟨⟨hx₀, hx₁⟩, hy₀, hy₁⟩ :=
    ExactBox.of_contains_innerRect hencloses.isFinite hon hin
  obtain ⟨hxl, hxh⟩ := abs_le.1 hland.1
  obtain ⟨hyl, hyh⟩ := abs_le.1 hland.2
  have corner {f : Point → ℚ} {v : ℚ} (hv : v ∈ ExactBox.along f (item.corners b)) :
      ∃ r d, v = f (item.toScreen (b.corner r d)) := by
    obtain ⟨q, hq, rfl⟩ := hv
    obtain ⟨r, d, rfl⟩ := mem_corners.1 hq
    exact ⟨r, d, rfl⟩
  obtain ⟨r₁, d₁, h₁⟩ := corner hencloses.minX.1
  obtain ⟨r₂, d₂, h₂⟩ := corner hencloses.maxX.1
  obtain ⟨r₃, d₃, h₃⟩ := corner hencloses.minY.1
  obtain ⟨r₄, d₄, h₄⟩ := corner hencloses.maxY.1
  have e₁ := abs_le.1 (h.approx_corner hb r₁ d₁).1.error
  have e₂ := abs_le.1 (h.approx_corner hb r₂ d₂).1.error
  have e₃ := abs_le.1 (h.approx_corner hb r₃ d₃).2.error
  have e₄ := abs_le.1 (h.approx_corner hb r₄ d₄).2.error
  refine ⟨⟨⟨r₁, d₁, ?_⟩, r₂, d₂, ?_⟩, ⟨r₃, d₃, ?_⟩, r₄, d₄, ?_⟩ <;> linarith

theorem cornerAt_between (hb : b.Fits (value item.scale)) (hs : 1 ≤ value item.scale) (r d : Bool) :
    (value b.x * value item.scale ≤ (item.cornerAt b r d).1 ∧
        (item.cornerAt b r d).1 ≤ (value b.x + value b.width) * value item.scale) ∧
      value b.y * value item.scale ≤ (item.cornerAt b r d).2 ∧
        (item.cornerAt b r d).2 ≤ (value b.y + value b.height) * value item.scale := by
  have side {c l s : ℚ} (hl : 0 < l) (hs : 1 ≤ s) (far : Bool) :
      c * s ≤ (c + if far then l else 0) * s ∧ (c + if far then l else 0) * s ≤ (c + l) * s := by
    cases far <;> simp only [Bool.false_eq_true, if_false, if_true] <;> constructor <;> nlinarith
  exact ⟨side hb.width_pos hs r, side hb.height_pos hs d⟩

theorem Moderate.abs_sub_cornerAt_le (h : item.Moderate) (hb : b.Fits (value item.scale))
    (hx : (∃ r d, (item.matrix.image (item.cornerAt b r d)).1 ≤ (item.matrix.image p).1) ∧
      ∃ r d, (item.matrix.image p).1 ≤ (item.matrix.image (item.cornerAt b r d)).1)
    (hy : (∃ r d, (item.matrix.image (item.cornerAt b r d)).2 ≤ (item.matrix.image p).2) ∧
      ∃ r d, (item.matrix.image p).2 ≤ (item.matrix.image (item.cornerAt b r d)).2) (r d : Bool) :
    |p.1 - (item.cornerAt b r d).1| ≤ 2 ^ 22 ∧ |p.2 - (item.cornerAt b r d).2| ≤ 2 ^ 22 := by
  have hm := h.regular
  have near (r d : Bool) :=
    hm.abs_image_sub_offset_le (h.abs_cornerAt_le hb r d).1 (h.abs_cornerAt_le hb r d).2
  have between {z t : ℚ} {f : Bool → Bool → ℚ} (hf : ∀ r d, |f r d - t| ≤ 4 * 2 ^ 16)
      (hz : (∃ r d, f r d ≤ z) ∧ ∃ r d, z ≤ f r d) : |z - t| ≤ 2 ^ 18 := by
    obtain ⟨⟨r₀, d₀, hlow⟩, r₁, d₁, hhigh⟩ := hz
    rw [abs_le]
    constructor
    · linarith [(abs_le.1 (hf r₀ d₀)).1]
    · linarith [(abs_le.1 (hf r₁ d₁)).2]
  obtain ⟨hp₁, hp₂⟩ := hm.abs_preimage_le (between (fun r d => (near r d).1) hx)
    (between (fun r d => (near r d).2) hy)
  rw [Affine.preimage_image hm.exactDet_ne_zero] at hp₁ hp₂
  obtain ⟨hc₁, hc₂⟩ := h.abs_cornerAt_le hb r d
  constructor
  · linarith [abs_sub p.1 (item.cornerAt b r d).1]
  · linarith [abs_sub p.2 (item.cornerAt b r d).2]

theorem Moderate.inFrame_of_isAxisAligned (h : item.Moderate) (hb : b.Fits (value item.scale))
    (haxis : item.matrix.isAxisAligned = true) (hland : item.Lands x y p)
    (hon : (Rect.ofSize width height).contains x y = true)
    (hin : (ExactBox.ofPoints (item.corners b)).innerRect.contains x y = true) :
    item.InFrame b (1 / 1024) p := by
  have hm := h.regular
  have hbeyond := h.beyond_corners hb hland hon hin
  have hfar := h.abs_sub_cornerAt_le hb
    ⟨hbeyond.1.1.imp fun r => Exists.imp fun d hd => by linarith,
      hbeyond.1.2.imp fun r => Exists.imp fun d hd => by linarith⟩
    ⟨hbeyond.2.1.imp fun r => Exists.imp fun d hd => by linarith,
      hbeyond.2.2.imp fun r => Exists.imp fun d hd => by linarith⟩
  have hcorner := cornerAt_between hb h.one_le_scale
  obtain ⟨⟨⟨r₁, d₁, h₁⟩, r₂, d₂, h₂⟩, ⟨r₃, d₃, h₃⟩, r₄, d₄, h₄⟩ := hbeyond
  -- The entries that would turn the axes move nothing by a sixteenth of a pixel.
  have still {a q : ℚ} (ha : |a| ≤ 11 / 10 ^ 10) (hq : |q| ≤ 2 ^ 22) : |a * q| ≤ 1 / 16 :=
    (Affine.abs_mul_le_mul ha hq).trans (by norm_num)
  simp only [Affine.image] at h₁ h₂ h₃ h₄
  rw [Affine.isAxisAligned, Bool.or_eq_true, Bool.and_eq_true, Bool.and_eq_true,
    decide_eq_true_iff, decide_eq_true_iff, decide_eq_true_iff, decide_eq_true_iff] at haxis
  rcases haxis with ⟨hyx, hxy⟩ | ⟨hxx, hyy⟩
  · have hyx' := (Affine.abs_le_of_abs_lt_tolerance hyx).2
    have hxy' := (Affine.abs_le_of_abs_lt_tolerance hxy).2
    have s₁ := abs_le.1 (still hxy' (hfar r₁ d₁).2)
    have s₂ := abs_le.1 (still hxy' (hfar r₂ d₂).2)
    have s₃ := abs_le.1 (still hyx' (hfar r₃ d₃).1)
    have s₄ := abs_le.1 (still hyx' (hfar r₄ d₄).1)
    exact ⟨between_of_factor hm.xx_le (hcorner r₁ d₁).1 (hcorner r₂ d₂).1 (by linarith)
        (by linarith),
      between_of_factor hm.yy_le (hcorner r₃ d₃).2 (hcorner r₄ d₄).2 (by linarith) (by linarith)⟩
  · have hxx' := (Affine.abs_le_of_abs_lt_tolerance hxx).2
    have hyy' := (Affine.abs_le_of_abs_lt_tolerance hyy).2
    have s₁ := abs_le.1 (still hxx' (hfar r₁ d₁).1)
    have s₂ := abs_le.1 (still hxx' (hfar r₂ d₂).1)
    have s₃ := abs_le.1 (still hyy' (hfar r₃ d₃).2)
    have s₄ := abs_le.1 (still hyy' (hfar r₄ d₄).2)
    exact ⟨between_of_factor hm.yx_le (hcorner r₃ d₃).1 (hcorner r₄ d₄).1 (by linarith)
        (by linarith),
      between_of_factor hm.xy_le (hcorner r₁ d₁).2 (hcorner r₂ d₂).2 (by linarith) (by linarith)⟩

end Item

end PatternScript
