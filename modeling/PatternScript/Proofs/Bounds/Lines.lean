import PatternScript.Proofs.Bounds.Rounding
import PatternScript.Proofs.Culling.Painting
import PatternScript.Proofs.LineWalks

/-!
# Lines between rounded positions

Cutting a line between whole positions keeps its ends between them: the parts that are kept are
fractions, and rounding does not take a product or a sum over a whole number. So a line stays in
the box of its ends, and is off by less than a pixel from the positions that were rounded.
-/
namespace PatternScript

open Number

namespace Segment

variable {s c : Segment} {kept kept' edge : Float × Float} {width height : Int32} {t : Float}

structure IsPart (t : Float) : Prop where
  isFinite : t.isFinite = true
  nonneg : 0 ≤ value t
  le_one : value t ≤ 1

/-- A double that is not too small to divide by, and not too large to be divided. -/
structure IsEdge (edge : Float × Float) : Prop where
  isFinite_fst : edge.1.isFinite = true
  isFinite_snd : edge.2.isFinite = true
  one_le : value edge.1 ≠ 0 → 1 ≤ |value edge.1|
  reach : |value edge.2| ≤ 2 ^ 40

theorem IsPart.greatest {r : Float} (ht : IsPart t) (hr : r.isFinite = true) (hle : value r ≤ 1) :
    IsPart (greatest t r) := by
  obtain ⟨hfinite, hvalue⟩ := isFinite_and_value_greatest ht.isFinite hr
  exact ⟨hfinite, hvalue ▸ ht.nonneg.trans (le_max_left _ _), hvalue ▸ max_le ht.le_one hle⟩

theorem IsPart.least {r : Float} (ht : IsPart t) (hr : r.isFinite = true) (hle : 0 ≤ value r) :
    IsPart (least t r) := by
  obtain ⟨hfinite, hvalue⟩ := isFinite_and_value_least ht.isFinite hr
  exact ⟨hfinite, hvalue ▸ le_min ht.nonneg hle, hvalue ▸ (min_le_left _ _).trans ht.le_one⟩

theorem isPart_of_cutEdge (hk : IsPart kept.1 ∧ IsPart kept.2) (he : IsEdge edge)
    (h : cutEdge? kept edge = some kept') : IsPart kept'.1 ∧ IsPart kept'.2 := by
  obtain ⟨t₀, t₁⟩ := kept
  obtain ⟨p, q⟩ := edge
  obtain ⟨h₀, h₁⟩ := hk
  simp only [cutEdge?] at h
  split at h
  · split_ifs at h
    rw [Option.some.injEq] at h
    exact h ▸ ⟨h₀, h₁⟩
  · rename_i hzero
    rw [beq_iff he.isFinite_fst isFinite_zero, value_zero] at hzero
    have hquotient : |value q / value p| ≤ 2 ^ 40 := by
      rw [abs_div]
      exact (div_le_self (abs_nonneg _) (he.one_le hzero)).trans he.reach
    have hr := ((rounded_div he.isFinite_snd he.isFinite_fst hzero).nearest
      (abs_lt_limit (hquotient.trans (by norm_num)))).isFinite
    split_ifs at h with hneg hout hout <;> rw [Option.some.injEq] at h <;> subst h
    · rw [gt_iff_lt, lt_iff h₁.isFinite hr, not_lt] at hout
      exact ⟨h₀.greatest hr (hout.trans h₁.le_one), h₁⟩
    · rw [lt_iff hr h₀.isFinite, not_lt] at hout
      exact ⟨h₀, h₁.least hr (h₀.nonneg.trans hout)⟩

theorem isPart_of_foldlM {edges : List (Float × Float)} (hk : IsPart kept.1 ∧ IsPart kept.2)
    (he : ∀ edge ∈ edges, IsEdge edge) (h : edges.foldlM cutEdge? kept = some kept') :
    IsPart kept'.1 ∧ IsPart kept'.2 := by
  induction edges generalizing kept with
  | nil =>
    rw [List.foldlM_nil, Option.pure_def, Option.some.injEq] at h
    exact h ▸ hk
  | cons edge edges ih =>
    rw [List.foldlM_cons, Option.bind_eq_bind, Option.bind_eq_some_iff] at h
    obtain ⟨next, hnext, hrest⟩ := h
    exact ih (isPart_of_cutEdge hk (he edge List.mem_cons_self) hnext)
      (fun edge' hedge' => he edge' (List.mem_cons_of_mem edge hedge')) hrest

structure IsWhole (c : Float) (n : Int) : Prop where
  isFinite : c.isFinite = true
  value_eq : value c = n
  reach : |n| ≤ 2 ^ 21

variable {a b : Float} {m n : Int}

theorem IsWhole.sub (ha : IsWhole a m) (hb : IsWhole b n) : (b - a).isFinite = true ∧
    value (b - a) = (n - m : Int) := by
  have hm := ha.reach
  have hn := hb.reach
  have hlt : |n - m| < 2 ^ 53 := (abs_sub n m).trans_lt (by omega)
  have h := rounded_sub hb.isFinite ha.isFinite
  rw [hb.value_eq, ha.value_eq, ← Int.cast_sub] at h
  have hnear := h.nearest (abs_intCast_lt_limit hlt)
  exact ⟨hnear.isFinite, hnear.eq_intCast hlt⟩

theorem mem_uIcc_of_nearest {z : Float} {q : ℚ} (h : Nearest z q) (ha : a.isFinite = true)
    (hb : b.isFinite = true) (hq : q ∈ Set.uIcc (value a) (value b)) :
    value z ∈ Set.uIcc (value a) (value b) := by
  rw [Set.mem_uIcc] at hq ⊢
  rcases hq with ⟨h₁, h₂⟩ | ⟨h₁, h₂⟩
  · exact .inl ⟨h.le_of_le ha h₁, h.ge_of_ge hb h₂⟩
  · exact .inr ⟨h.le_of_le hb h₁, h.ge_of_ge ha h₂⟩

theorem abs_le_of_mem_uIcc {u v z B : ℚ} (hz : z ∈ Set.uIcc u v) (hu : |u| ≤ B) (hv : |v| ≤ B) :
    |z| ≤ B := by
  rw [abs_le] at hu hv ⊢
  rcases Set.mem_uIcc.1 hz with ⟨h₁, h₂⟩ | ⟨h₁, h₂⟩ <;> constructor <;> linarith

theorem IsPart.between (ht : IsPart t) (ha : IsWhole a m) (hb : IsWhole b n) :
    (a + t * (b - a)).isFinite = true ∧ value (a + t * (b - a)) ∈ Set.uIcc (m : ℚ) n := by
  obtain ⟨hfinite, hvalue⟩ := ha.sub hb
  have hm : |(m : ℚ)| ≤ 2 ^ 21 := by exact_mod_cast ha.reach
  have hn : |(n : ℚ)| ≤ 2 ^ 21 := by exact_mod_cast hb.reach
  have hlength : |(n - m : ℚ)| ≤ 2 ^ 22 := by linarith [abs_sub (n : ℚ) m]
  rw [Int.cast_sub] at hvalue
  have hpart : value t * (n - m) ∈ Set.uIcc (0 : ℚ) (n - m) := by
    rw [Set.mem_uIcc]
    rcases le_total 0 (n - m : ℚ) with h | h
    · exact .inl ⟨mul_nonneg ht.nonneg h, mul_le_of_le_one_left h ht.le_one⟩
    · refine .inr ⟨?_, mul_nonpos_of_nonneg_of_nonpos ht.nonneg h⟩
      linarith [mul_le_mul_of_nonpos_right ht.le_one h]
  have hprod := rounded_mul ht.isFinite hfinite
  rw [hvalue] at hprod
  have hnear := hprod.nearest (abs_lt_limit
    ((abs_le_of_mem_uIcc hpart (by rw [abs_zero]; norm_num) hlength).trans (by norm_num)))
  have hpart' : value (t * (b - a)) ∈ Set.uIcc (0 : ℚ) (n - m) := by
    have := mem_uIcc_of_nearest hnear isFinite_zero hfinite
    rw [value_zero, hvalue] at this
    exact this hpart
  have hsum : m + value (t * (b - a)) ∈ Set.uIcc (m : ℚ) n := by
    rw [Set.mem_uIcc] at hpart' ⊢
    rcases hpart' with ⟨h₁, h₂⟩ | ⟨h₁, h₂⟩
    · exact .inl ⟨by linarith, by linarith⟩
    · exact .inr ⟨by linarith, by linarith⟩
  have hadd := rounded_add ha.isFinite hnear.isFinite
  rw [ha.value_eq] at hadd
  have hend := hadd.nearest (abs_lt_limit ((abs_le_of_mem_uIcc hsum hm hn).trans (by norm_num)))
  rw [← ha.value_eq, ← hb.value_eq] at hsum ⊢
  exact ⟨hend.isFinite, mem_uIcc_of_nearest (by rwa [ha.value_eq]) ha.isFinite hb.isFinite hsum⟩

theorem isEdge {d u v : Float} {k : Int} (hd : d.isFinite = true) (hk : value d = k)
    (hu : u.isFinite = true) (hv : v.isFinite = true) (hu' : |value u| ≤ 2 ^ 31)
    (hv' : |value v| ≤ 2 ^ 31) : IsEdge (d, u - v) := by
  have hsize : |value u - value v| ≤ 2 ^ 33 := by linarith [abs_sub (value u) (value v)]
  have hdiff := Approx.of_rounded (rounded_sub hu hv) hsize (by norm_num) (by norm_num)
    (q := value u - value v) (ε := 0) (by rw [sub_self, abs_zero])
  refine ⟨hd, hdiff.isFinite, fun hne => ?_, hdiff.abs_value_le.trans (by linarith)⟩
  rw [hk] at hne ⊢
  exact_mod_cast Int.one_le_abs (by exact_mod_cast hne)

theorem IsWhole.abs_value_le (h : IsWhole a m) : |value a| ≤ 2 ^ 31 := by
  have hm : |(m : ℚ)| ≤ 2 ^ 21 := by exact_mod_cast h.reach
  rw [h.value_eq]
  exact hm.trans (by norm_num)

structure Amid (p : Point) (x₀ y₀ x₁ y₁ : Int) : Prop where
  isFinite_x : p.x.isFinite = true
  isFinite_y : p.y.isFinite = true
  x : value p.x ∈ Set.uIcc (x₀ : ℚ) x₁
  y : value p.y ∈ Set.uIcc (y₀ : ℚ) y₁

section Clipping

variable {x₀ y₀ x₁ y₁ : Int}

def edges (s : Segment) (w : Window) : List (Float × Float) :=
  [(-(s.stop.x - s.start.x), s.start.x - w.minX), (s.stop.x - s.start.x, w.maxX - s.start.x),
    (-(s.stop.y - s.start.y), s.start.y - w.minY), (s.stop.y - s.start.y, w.maxY - s.start.y)]

def partway (s : Segment) (t : Float) : Point :=
  ⟨s.start.x + t * (s.stop.x - s.start.x), s.start.y + t * (s.stop.y - s.start.y)⟩

theorem clip?_eq_some {w : Window} (h : s.clip? w = some c) : ∃ kept,
    (s.edges w).foldlM cutEdge? (0.0, 1.0) = some kept ∧
      c = ⟨s.partway kept.1, s.partway kept.2⟩ := by
  simp only [clip?, Option.bind_eq_bind, Option.pure_def] at h
  split_ifs at h
  · cases h
  · obtain ⟨kept, hkept, hc⟩ := Option.bind_eq_some_iff.1 h
    exact ⟨kept, hkept, (Option.some.inj hc).symm⟩

theorem isEdge_of_mem_edges (hx₀ : IsWhole s.start.x x₀) (hy₀ : IsWhole s.start.y y₀)
    (hx₁ : IsWhole s.stop.x x₁) (hy₁ : IsWhole s.stop.y y₁)
    (hedge : edge ∈ s.edges (.ofSize width height)) : IsEdge edge := by
  obtain ⟨hdx, hdx'⟩ := hx₀.sub hx₁
  obtain ⟨hdy, hdy'⟩ := hy₀.sub hy₁
  have negated {d : Float} {k : Int} (hd : d.isFinite = true) (hk : value d = k) :
      (-d).isFinite = true ∧ value (-d) = (-k : Int) := by
    rw [isFinite_neg, value_neg, hk, Int.cast_neg]
    exact ⟨hd, rfl⟩
  obtain ⟨hnx, hnx'⟩ := negated hdx hdx'
  obtain ⟨hny, hny'⟩ := negated hdy hdy'
  have hone : (-1 : Float).isFinite = true ∧ |value (-1)| ≤ 2 ^ 31 := by
    rw [isFinite_neg, value_neg, abs_neg, value_one, abs_one]
    exact ⟨isFinite_one, by norm_num⟩
  simp only [edges, Window.ofSize, List.mem_cons, List.not_mem_nil, or_false] at hedge
  rcases hedge with h | h | h | h <;> rw [h]
  · exact isEdge hnx hnx' hx₀.isFinite hone.1 hx₀.abs_value_le hone.2
  · exact isEdge hdx hdx' (isFinite_ofInt32 _) hx₀.isFinite (abs_value_ofInt32_le _)
      hx₀.abs_value_le
  · exact isEdge hny hny' hy₀.isFinite hone.1 hy₀.abs_value_le hone.2
  · exact isEdge hdy hdy' (isFinite_ofInt32 _) hy₀.isFinite (abs_value_ofInt32_le _)
      hy₀.abs_value_le

theorem isPart_zero_and_one : IsPart 0.0 ∧ IsPart 1.0 := by
  rw [one_eq]
  exact ⟨⟨isFinite_zero, value_zero.ge, value_zero.trans_le zero_le_one⟩,
    isFinite_one, value_one.ge.trans' zero_le_one, value_one.le⟩

theorem amid_partway (ht : IsPart t) (hx₀ : IsWhole s.start.x x₀) (hy₀ : IsWhole s.start.y y₀)
    (hx₁ : IsWhole s.stop.x x₁) (hy₁ : IsWhole s.stop.y y₁) :
    Amid (s.partway t) x₀ y₀ x₁ y₁ := by
  obtain ⟨hx, hx'⟩ := ht.between hx₀ hx₁
  obtain ⟨hy, hy'⟩ := ht.between hy₀ hy₁
  exact ⟨hx, hy, hx', hy'⟩

theorem amid_of_clip (hx₀ : IsWhole s.start.x x₀) (hy₀ : IsWhole s.start.y y₀)
    (hx₁ : IsWhole s.stop.x x₁) (hy₁ : IsWhole s.stop.y y₁)
    (h : s.clip? (.ofSize width height) = some c) :
    Amid c.start x₀ y₀ x₁ y₁ ∧ Amid c.stop x₀ y₀ x₁ y₁ := by
  obtain ⟨kept, hkept, rfl⟩ := clip?_eq_some h
  obtain ⟨h₀, h₁⟩ := isPart_of_foldlM isPart_zero_and_one
    (fun edge hedge => isEdge_of_mem_edges hx₀ hy₀ hx₁ hy₁ hedge) hkept
  exact ⟨amid_partway h₀ hx₀ hy₀ hx₁ hy₁, amid_partway h₁ hx₀ hy₀ hx₁ hy₁⟩

theorem toWord64_between {z : Float} (hz : z.isFinite = true) (hm : |m| ≤ 2 ^ 21)
    (hn : |n| ≤ 2 ^ 21) (h : value z ∈ Set.uIcc (m : ℚ) n) :
    min m n ≤ Rounding.nearest.toWord64 z ∧ Rounding.nearest.toWord64 z ≤ max m n := by
  have hwhole : min m n ≤ Rounding.nearest.whole (value z) ∧
      Rounding.nearest.whole (value z) ≤ max m n := by
    rcases Set.mem_uIcc.1 h with ⟨h₁, h₂⟩ | ⟨h₁, h₂⟩ <;>
      have hlow := Rounding.whole_mono .nearest h₁ <;>
      have hhigh := Rounding.whole_mono .nearest h₂ <;>
      rw [Rounding.whole_intCast] at hlow hhigh <;> omega
  rw [abs_le] at hm hn
  rw [Rounding.toWord64_eq hz (by omega) (by omega)]
  exact hwhole

theorem between_of_mem_pixelsOn {p : Int32 × Int32} (hx₀ : IsWhole s.start.x x₀)
    (hy₀ : IsWhole s.start.y y₀) (hx₁ : IsWhole s.stop.x x₁) (hy₁ : IsWhole s.stop.y y₁)
    (hp : p ∈ s.pixelsOn width height) :
    (min x₀ x₁ ≤ p.1.toInt ∧ p.1.toInt ≤ max x₀ x₁) ∧
      min y₀ y₁ ≤ p.2.toInt ∧ p.2.toInt ≤ max y₀ y₁ := by
  have hrx₀ := abs_le.1 hx₀.reach
  have hry₀ := abs_le.1 hy₀.reach
  have hrx₁ := abs_le.1 hx₁.reach
  have hry₁ := abs_le.1 hy₁.reach
  rw [pixelsOn] at hp
  cases hclip : s.clip? (.ofSize width height) with
  | none =>
    rw [hclip] at hp
    cases hp
  | some c =>
    rw [hclip, List.mem_map] at hp
    obtain ⟨q, hq, rfl⟩ := hp
    obtain ⟨hstart, hstop⟩ := amid_of_clip hx₀ hy₀ hx₁ hy₁ hclip
    have hsx := toWord64_between hstart.isFinite_x hx₀.reach hx₁.reach hstart.x
    have hsy := toWord64_between hstart.isFinite_y hy₀.reach hy₁.reach hstart.y
    have htx := toWord64_between hstop.isFinite_x hx₀.reach hx₁.reach hstop.x
    have hty := toWord64_between hstop.isFinite_y hy₀.reach hy₁.reach hstop.y
    have hbox := (near_of_mem_pixels hq).1
    dsimp only
    rw [Words.toInt_ofInt_of_fits (by omega) (by omega),
      Words.toInt_ofInt_of_fits (by omega) (by omega)]
    omega

end Clipping

end Segment

namespace Item

open Segment

variable {item : Item} {e : ExactBox} {width height x y : Int32} {p a b : Point} {ps : List Point}
  {marks marks' : List Mark}

/-- A position that is not far from the origin, and at most a quarter of a pixel outside. -/
structure Beside (e : ExactBox) (p : Point) : Prop where
  isFinite_x : p.x.isFinite = true
  isFinite_y : p.y.isFinite = true
  reach_x : |value p.x| ≤ 2 ^ 20 + 1
  reach_y : |value p.y| ≤ 2 ^ 20 + 1
  x : value e.minX - 1 / 4 ≤ value p.x ∧ value p.x ≤ value e.maxX + 1 / 4
  y : value e.minY - 1 / 4 ≤ value p.y ∧ value p.y ≤ value e.maxY + 1 / 4

theorem isWhole_nearest {c : Float} (hc : c.isFinite = true) (h : |value c| ≤ 2 ^ 20 + 1) :
    ∃ n : Int, IsWhole (Rounding.nearest.float c) n ∧ |(n : ℚ) - value c| ≤ 1 / 2 := by
  have hnear := Rounding.abs_whole_nearest_sub_le (value c)
  have hreach : |Rounding.nearest.whole (value c)| ≤ 2 ^ 21 := by
    have hle : |(Rounding.nearest.whole (value c) : ℚ)| ≤ 2 ^ 21 := by
      have htriangle := abs_sub_abs_le_abs_sub (Rounding.nearest.whole (value c) : ℚ) (value c)
      linarith
    exact_mod_cast hle
  obtain ⟨hfinite, hvalue⟩ := Rounding.isFinite_and_value_float (r := .nearest) hc
    (hreach.trans_lt (by norm_num))
  exact ⟨_, ⟨hfinite, hvalue, hreach⟩, hnear⟩

theorem Beside.roundPoint (h : Beside e p) : ∃ X Y : Int, IsWhole (roundPoint p).x X ∧
    IsWhole (roundPoint p).y Y ∧ (value e.minX - 3 / 4 ≤ X ∧ X ≤ value e.maxX + 3 / 4) ∧
      value e.minY - 3 / 4 ≤ Y ∧ Y ≤ value e.maxY + 3 / 4 := by
  obtain ⟨X, hX, hx⟩ := isWhole_nearest h.isFinite_x h.reach_x
  obtain ⟨Y, hY, hy⟩ := isWhole_nearest h.isFinite_y h.reach_y
  rw [abs_le] at hx hy
  obtain ⟨hx₀, hx₁⟩ := h.x
  obtain ⟨hy₀, hy₁⟩ := h.y
  exact ⟨X, Y, hX, hY, ⟨by linarith, by linarith⟩, by linarith, by linarith⟩

theorem between_of_wholes {X₀ X₁ n : Int} {lo hi : ℚ} (h₀ : lo - 3 / 4 ≤ X₀ ∧ X₀ ≤ hi + 3 / 4)
    (h₁ : lo - 3 / 4 ≤ X₁ ∧ X₁ ≤ hi + 3 / 4) (hn : min X₀ X₁ ≤ n ∧ n ≤ max X₀ X₁) :
    ⌊lo⌋ ≤ n ∧ n < ⌈hi⌉ + Int32.toInt 1 := by
  have floor_le {X : Int} (hX : lo - 3 / 4 ≤ X) : ⌊lo⌋ ≤ X := by
    rw [← Int.lt_add_one_iff, Int.floor_lt]
    push_cast
    linarith
  have lt_ceil {X : Int} (hX : X ≤ hi + 3 / 4) : X < ⌈hi⌉ + 1 := by
    have hceil := Int.le_ceil hi
    exact_mod_cast (show (X : ℚ) < ⌈hi⌉ + 1 by linarith)
  have hlow₀ := floor_le h₀.1
  have hlow₁ := floor_le h₁.1
  have hhigh₀ := lt_ceil h₀.2
  have hhigh₁ := lt_ceil h₁.2
  rw [Int32.toInt_one]
  omega

theorem contains_of_paint_lineMarks {k : Color} (he : e.isFinite = true) (ha : Beside e a)
    (hb : Beside e b) (hon : (Rect.ofSize width height).contains x y = true)
    (hpaint : Mark.Paint width height x y
      (lineMarks width height (Item.roundPoint a) (Item.roundPoint b) k)) :
    (e.outerRect 1).contains x y = true := by
  obtain ⟨X₀, Y₀, hX₀, hY₀, hx₀, hy₀⟩ := ha.roundPoint
  obtain ⟨X₁, Y₁, hX₁, hY₁, hx₁, hy₁⟩ := hb.roundPoint
  obtain ⟨m, hm, hpoint⟩ := hpaint
  obtain ⟨q, hq, rfl⟩ := List.mem_map.1 hm
  rw [Mark.points, List.mem_singleton, Prod.mk.injEq] at hpoint
  obtain ⟨hx, hy⟩ := between_of_mem_pixelsOn hX₀ hY₀ hX₁ hY₁ hq
  rw [← hpoint.1] at hx
  rw [← hpoint.2] at hy
  exact ExactBox.contains_outerRect he (by decide) hon (between_of_wholes hx₀ hx₁ hx)
    (between_of_wholes hy₀ hy₁ hy)

theorem paint_append_iff : Mark.Paint width height x y (marks ++ marks') ↔
    Mark.Paint width height x y marks ∨ Mark.Paint width height x y marks' := by
  simp only [Mark.Paint, List.mem_append, or_and_right, exists_or]

theorem contains_of_paint_pathMarks (he : e.isFinite = true) (hps : ∀ p ∈ ps, Beside e p)
    (hon : (Rect.ofSize width height).contains x y = true)
    (hpaint : Mark.Paint width height x y
      (item.pathMarks width height (ps.map Item.roundPoint))) :
    (e.outerRect 1).contains x y = true := by
  induction ps with
  | nil =>
    obtain ⟨m, hm, -⟩ := hpaint
    cases hm
  | cons a ps ih =>
    cases ps with
    | nil =>
      obtain ⟨m, hm, -⟩ := hpaint
      cases hm
    | cons b ps =>
      rw [List.map_cons, List.map_cons, pathMarks, paint_append_iff, ← List.map_cons] at hpaint
      rcases hpaint with hline | hrest
      · exact contains_of_paint_lineMarks he (hps a List.mem_cons_self)
          (hps b (List.mem_cons_of_mem a List.mem_cons_self)) hon hline
      · exact ih (fun p hp => hps p (List.mem_cons_of_mem a hp)) hrest

end Item

end PatternScript
