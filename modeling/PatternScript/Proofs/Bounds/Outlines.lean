import PatternScript.Proofs.Bounds.Circles
import PatternScript.Proofs.Bounds.Lines

/-!
# Outlines

Lines, rectangles and circles are drawn between rounded positions on the screen. The box around
the positions themselves, widened by a pixel at the far edges, holds what is seen of them. Where
the vertices of a circle are depends on the sine and the cosine, of which it is only assumed that
they lie on the unit circle, but for rounding.
-/
namespace PatternScript

open Number

/-- The sine and the cosine of an angle are on the unit circle, but for rounding. -/
def Number.TurnsOnCircle : Prop := ∀ t : Float, t.isFinite = true →
  t.cos.isFinite = true ∧ t.sin.isFinite = true ∧
    value t.cos ^ 2 + value t.sin ^ 2 ≤ 1 + 1 / 2 ^ 40

namespace Item

variable {item : Item} {b : Frame} {width height x y : Int32} {p : Point} {e : ExactBox}
  {ps : List Point}

theorem Moderate.near_toScreen (h : item.Moderate) (hx : p.x.isFinite = true)
    (hy : p.y.isFinite = true) (hx' : |(item.scaled p).1| ≤ 2 ^ 17)
    (hy' : |(item.scaled p).2| ≤ 2 ^ 17) : (item.toScreen p).isFinite = true ∧
      |value (item.toScreen p).x| ≤ 2 ^ 20 + 1 ∧ |value (item.toScreen p).y| ≤ 2 ^ 20 + 1 := by
  obtain ⟨⟨hsx, hsy⟩, hfar, hfar'⟩ := h.approx_center hx hy hx' hy'
  refine ⟨by rw [Point.isFinite, hsx.isFinite, hsy.isFinite, Bool.and_self], ?_, ?_⟩
  · exact hsx.abs_value_le.trans (by linarith)
  · exact hsy.abs_value_le.trans (by linarith)

theorem beside_of_encloses (he : e.Encloses ps) (hp : p ∈ ps) (hfinite : p.isFinite = true)
    (hx : |value p.x| ≤ 2 ^ 20 + 1) (hy : |value p.y| ≤ 2 ^ 20 + 1) : Beside e p := by
  obtain ⟨hfx, hfy⟩ := (Bool.and_eq_true _ _).mp hfinite
  have hminX := he.minX.2 ⟨p, hp, rfl⟩
  have hmaxX := he.maxX.2 ⟨p, hp, rfl⟩
  have hminY := he.minY.2 ⟨p, hp, rfl⟩
  have hmaxY := he.maxY.2 ⟨p, hp, rfl⟩
  exact ⟨hfx, hfy, hx, hy, ⟨by linarith, by linarith⟩, by linarith, by linarith⟩

section Lines

def ends (item : Item) : List Point :=
  [item.toScreen ⟨item.coordinate "X1", item.coordinate "Y1"⟩,
    item.toScreen ⟨item.coordinate "X2", item.coordinate "Y2"⟩]

theorem Moderate.encloses_and_beside_ends (h : item.Moderate) :
    (ExactBox.ofPoints item.ends).Encloses item.ends ∧
      ∀ p ∈ item.ends, Beside (ExactBox.ofPoints item.ends) p := by
  have near (key key' : String) :=
    h.near_toScreen (p := ⟨item.coordinate key, item.coordinate key'⟩) (isFinite_ofInt32 _)
      (isFinite_ofInt32 _)
      (((h.short_coordinate key).abs_mul_le h.one_le_scale).trans (by norm_num))
      (((h.short_coordinate key').abs_mul_le h.one_le_scale).trans (by norm_num))
  have hends : ∀ p ∈ item.ends, p.isFinite = true ∧ |value p.x| ≤ 2 ^ 20 + 1 ∧
      |value p.y| ≤ 2 ^ 20 + 1 := by
    intro p hp
    rw [ends, List.mem_cons, List.mem_singleton] at hp
    rcases hp with rfl | rfl
    · exact near "X1" "Y1"
    · exact near "X2" "Y2"
  have he : (ExactBox.ofPoints item.ends).Encloses item.ends :=
    ExactBox.encloses_ofPoints fun p hp => (hends p hp).1
  refine ⟨he, fun p hp => ?_⟩
  obtain ⟨hfinite, hx, hy⟩ := hends p hp
  exact beside_of_encloses he hp hfinite hx hy

theorem Moderate.contains_of_paint_line (h : item.Moderate) (hshape : item.shape = .line)
    (hon : (Rect.ofSize width height).contains x y = true)
    (hpaint : Mark.Paint width height x y (item.marks width height (.ofSize width height))) :
    ((ExactBox.ofPoints item.ends).outerRect 1).contains x y = true := by
  obtain ⟨he, hends⟩ := h.encloses_and_beside_ends
  rw [marks, hshape] at hpaint
  exact contains_of_paint_lineMarks he.isFinite (hends _ List.mem_cons_self)
    (hends _ (List.mem_cons_of_mem _ List.mem_cons_self)) hon hpaint

end Lines

section Rectangles

theorem Moderate.beside_corners (h : item.Moderate) (hb : b.Fits (value item.scale)) :
    ∀ p ∈ item.corners b, Beside (ExactBox.ofPoints (item.corners b)) p := by
  intro p hp
  obtain ⟨right, below, rfl⟩ := mem_corners.1 hp
  obtain ⟨hx, hy⟩ := h.approx_corner hb right below
  obtain ⟨hfar, hfar'⟩ := h.abs_cornerAt_le hb right below
  have hreach := h.regular.abs_image_sub_offset_le hfar hfar'
  have near {z : Float} {q t : ℚ} (hz : Approx z q (1 / 2 ^ 31)) (hq : |q - t| ≤ 4 * 2 ^ 16)
      (ht : |t| ≤ 2 ^ 16) : |value z| ≤ 2 ^ 20 + 1 := by
    have hsum := abs_add_le (q - t) t
    rw [sub_add_cancel] at hsum
    exact hz.abs_value_le.trans (by linarith)
  refine beside_of_encloses (h.encloses_corners hb) hp ?_ (near hx hreach.1 h.regular.tx_le)
    (near hy hreach.2 h.regular.ty_le)
  rw [Point.isFinite, hx.isFinite, hy.isFinite, Bool.and_self]

theorem forall_append_take {P : Point → Prop} (h : ∀ p ∈ ps, P p) (n : Nat) :
    ∀ p ∈ ps ++ ps.take n, P p := by
  intro p hp
  rcases List.mem_append.1 hp with hp | hp
  · exact h p hp
  · exact h p (List.mem_of_mem_take hp)

theorem Moderate.contains_of_paint_rectMarks (h : item.Moderate) (hb : item.frame? = some b)
    (hon : (Rect.ofSize width height).contains x y = true)
    (hpaint : Mark.Paint width height x y (item.rectMarks width height)) :
    ((ExactBox.ofPoints (item.corners b)).outerRect 1).contains x y = true := by
  have hfits := h.fits_frame hb
  simp only [rectMarks, hb] at hpaint
  rw [← List.map_take, ← List.map_append] at hpaint
  exact contains_of_paint_pathMarks (h.encloses_corners hfits).isFinite
    (forall_append_take (h.beside_corners hfits) 1) hon hpaint

end Rectangles

section Circles

def onCircle (item : Item) (angle : Float) : Point :=
  ⟨item.coordinate "X" + item.coordinate "RADIUS" * angle.cos,
    item.coordinate "Y" + item.coordinate "RADIUS" * angle.sin⟩

def angleOf (sides i : Nat) : Float := tau * Float.ofNat i / Float.ofNat sides

theorem circleMarks_eq (hpos : ¬ item.coordinate "RADIUS" ≤ 0) :
    let vertices := (List.range item.circleSides).map fun i =>
      item.toScreen (item.onCircle (angleOf item.circleSides i))
    item.circleMarks width height =
      item.pathMarks width height ((vertices ++ vertices.take 1).map roundPoint) := by
  intro vertices
  have hvertices : (List.range item.circleSides).map (item.circleVertex item.circleSides) =
      vertices.map roundPoint := by
    rw [List.map_map]
    rfl
  simp only [circleMarks, if_neg hpos, hvertices, List.map_append, List.map_take]

theorem circleSides_le (item : Item) : item.circleSides ≤ 180 := by
  simp only [circleSides]
  omega

theorem isFinite_tau_and_abs_value_le : tau.isFinite = true ∧ |value tau| ≤ 7 := by
  have hunpack : tau.toModel.unpack = .finite .positive 7074237752028440 (-50) (by decide) := rfl
  refine ⟨rfl, ?_⟩
  rw [value, hunpack, Unpacked.value, Unpacked.signValue, one_mul, abs_le]
  norm_num

theorem isFinite_angleOf {sides i : Nat} (hi : i < sides) (hsides : sides ≤ 180) :
    (angleOf sides i).isFinite = true := by
  obtain ⟨htau, htau'⟩ := isFinite_tau_and_abs_value_le
  obtain ⟨hfi, hi'⟩ := isFinite_and_value_ofNat (m := i) (by omega)
  obtain ⟨hfs, hs'⟩ := isFinite_and_value_ofNat (m := sides) (by omega)
  have hle : |value (Float.ofNat i)| ≤ 180 := by
    rw [hi', Nat.abs_cast]
    exact_mod_cast (show i ≤ 180 by omega)
  have hone : 1 ≤ |value (Float.ofNat sides)| := by
    rw [hs', Nat.abs_cast]
    exact_mod_cast (show 1 ≤ sides by omega)
  have hturn := (Approx.self htau).mul (B := 2000) (Approx.self hfi) htau' hle (by norm_num)
    (by norm_num) (by norm_num)
  have hsize := Affine.abs_mul_le_mul htau' hle
  exact (hturn.div_value (B := 3000) hfs hone (by linarith) (by norm_num) (by norm_num)).isFinite

theorem Moderate.approx_vertex (h : item.Moderate) {c : Float} (hc : c.isFinite = true)
    (hc' : |value c| ≤ 2) (key : String) :
    (Approx (item.coordinate key + item.coordinate "RADIUS" * c)
        (value (item.coordinate key) + value (item.coordinate "RADIUS") * value c) (1 / 2 ^ 34)) ∧
      |(value (item.coordinate key) + value (item.coordinate "RADIUS") * value c) *
        value item.scale| ≤ 3 * 2 ^ 15 := by
  have hs := h.one_le_scale
  have hkey := h.short_coordinate key
  have hradius := h.short_coordinate "RADIUS"
  have hproduct := (Approx.self hradius.isFinite).mul (B := 2 ^ 16) (Approx.self hc)
    (hradius.abs_value_le hs) hc' (by norm_num) (by norm_num) (by norm_num)
  have hsize := Affine.abs_mul_le_mul (hradius.abs_value_le hs) hc'
  have hsum := abs_add_le (value (item.coordinate key))
    (value (item.coordinate "RADIUS") * value c)
  refine ⟨((Approx.self hkey.isFinite).add (B := 2 ^ 17) hproduct
    (by linarith [hkey.abs_value_le hs]) (by norm_num) (by norm_num)).mono (by norm_num), ?_⟩
  have hscaled := Affine.abs_mul_le_mul (hradius.abs_mul_le hs) hc'
  have hsplit : (value (item.coordinate key) + value (item.coordinate "RADIUS") * value c) *
      value item.scale = value (item.coordinate key) * value item.scale +
        value (item.coordinate "RADIUS") * value item.scale * value c := by ring
  rw [hsplit]
  linarith [abs_add_le (value (item.coordinate key) * value item.scale)
    (value (item.coordinate "RADIUS") * value item.scale * value c), hkey.abs_mul_le hs]

theorem Moderate.beside_vertex (h : item.Moderate) (hpos : ¬ item.coordinate "RADIUS" ≤ 0)
    {t : Float} (hcos : t.cos.isFinite = true) (hsin : t.sin.isFinite = true)
    (hcircle : value t.cos ^ 2 + value t.sin ^ 2 ≤ 1 + 1 / 2 ^ 40) :
    Beside item.circleBox (item.toScreen (item.onCircle t)) := by
  have hs := h.one_le_scale
  have hle := h.scale_le
  have hcos' : |value t.cos| ≤ 2 :=
    abs_le_of_sq_le_sq (by linarith [sq_nonneg (value t.sin)]) (by norm_num)
  have hsin' : |value t.sin| ≤ 2 :=
    abs_le_of_sq_le_sq (by linarith [sq_nonneg (value t.cos)]) (by norm_num)
  obtain ⟨hx, hx'⟩ := h.approx_vertex hcos hcos' "X"
  obtain ⟨hy, hy'⟩ := h.approx_vertex hsin hsin' "Y"
  obtain ⟨q, hq⟩ : ∃ q : ℚ × ℚ, q =
      ((value (item.coordinate "X") + value (item.coordinate "RADIUS") * value t.cos) *
          value item.scale,
        (value (item.coordinate "Y") + value (item.coordinate "RADIUS") * value t.sin) *
          value item.scale) := ⟨_, rfl⟩
  have hdisc : Affine.lengthSq (q.1 - item.centerScaled.1, q.2 - item.centerScaled.2) ≤
      (value (item.coordinate "RADIUS") * value item.scale) ^ 2 * (1 + 1 / 2 ^ 40) := by
    have hlength : Affine.lengthSq (q.1 - item.centerScaled.1, q.2 - item.centerScaled.2) =
        (value (item.coordinate "RADIUS") * value item.scale) ^ 2 *
          (value t.cos ^ 2 + value t.sin ^ 2) := by
      rw [hq]
      simp only [Affine.lengthSq, centerScaled, scaled]
      ring
    rw [hlength]
    exact mul_le_mul_of_nonneg_left hcircle (sq_nonneg _)
  have scaled_near {z : Float} {v : ℚ} (hz : Approx z v (1 / 2 ^ 34)) :
      |value z * value item.scale - v * value item.scale| ≤ 1 / 2 ^ 19 := by
    rw [← sub_mul]
    exact (Affine.abs_mul_le_mul hz.error
      (show |value item.scale| ≤ 2 ^ 15 by rwa [abs_of_nonneg (by linarith)])).trans (by norm_num)
  have short {u v : ℚ} (huv : |u - v| ≤ 1 / 2 ^ 19) (hv : |v| ≤ 3 * 2 ^ 15) : |u| ≤ 2 ^ 17 := by
    have hsum := abs_add_le (u - v) v
    rw [sub_add_cancel] at hsum
    linarith
  have hnx : |(item.scaled (item.onCircle t)).1 - q.1| ≤ 1 / 2 ^ 19 := by
    rw [hq]
    exact scaled_near hx
  have hny : |(item.scaled (item.onCircle t)).2 - q.2| ≤ 1 / 2 ^ 19 := by
    rw [hq]
    exact scaled_near hy
  have hqx : |q.1| ≤ 3 * 2 ^ 15 := hq ▸ hx'
  have hqy : |q.2| ≤ 3 * 2 ^ 15 := hq ▸ hy'
  obtain ⟨hscreenX, hscreenY⟩ := (h.approx_center (p := item.onCircle t) hx.isFinite hy.isFinite
    (short hnx hqx) (short hny hqy)).1
  obtain ⟨hfinite, hfarX, hfarY⟩ := h.near_toScreen (p := item.onCircle t) hx.isFinite hy.isFinite
    (short hnx hqx) (short hny hqy)
  obtain ⟨hfx, hfy⟩ := (Bool.and_eq_true _ _).mp hfinite
  obtain ⟨hix, hiy⟩ := h.regular.abs_image_sub_le hnx hny
  obtain ⟨hdx, hdy⟩ := h.abs_image_sub_le_of_disc hpos hdisc
  have haround := h.isAround_circleBox
  have within {z lo hi : Float} {u v c : ℚ} (hz : Approx z u (1 / 2 ^ 20))
      (hu : |u - v| ≤ 4 * (1 / 2 ^ 19)) (hv : |v - c| ≤ item.circleReach + 1 / 8)
      (hlo : Approx lo (c - item.circleReach) (1 / 2 ^ 18))
      (hhi : Approx hi (c + item.circleReach) (1 / 2 ^ 18)) :
      value lo - 1 / 4 ≤ value z ∧ value z ≤ value hi + 1 / 4 := by
    have hz' := abs_le.1 hz.error
    have hlo' := abs_le.1 hlo.error
    have hhi' := abs_le.1 hhi.error
    rw [abs_le] at hu hv
    constructor <;> linarith
  exact ⟨hfx, hfy, hfarX, hfarY, within hscreenX hix hdx haround.minX haround.maxX,
    within hscreenY hiy hdy haround.minY haround.maxY⟩

theorem Moderate.contains_of_paint_circleMarks (h : item.Moderate) (hturns : TurnsOnCircle)
    (hpos : ¬ item.coordinate "RADIUS" ≤ 0)
    (hon : (Rect.ofSize width height).contains x y = true)
    (hpaint : Mark.Paint width height x y (item.circleMarks width height)) :
    (item.circleBox.outerRect 1).contains x y = true := by
  rw [circleMarks_eq hpos] at hpaint
  refine contains_of_paint_pathMarks h.isAround_circleBox.isFinite
    (forall_append_take (fun p hp => ?_) 1) hon hpaint
  obtain ⟨i, hi, rfl⟩ := List.mem_map.1 hp
  obtain ⟨hcos, hsin, hcircle⟩ := hturns _
    (isFinite_angleOf (List.mem_range.1 hi) item.circleSides_le)
  exact h.beside_vertex hpos hcos hsin hcircle

end Circles

end Item

end PatternScript
