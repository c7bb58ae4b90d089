import Mathlib.Tactic.NormNum
import Mathlib.Tactic.Positivity
import PatternScript.Proofs.Lines.Strips

/-!
# Lines between rounded points

A line is cut at two of its points, both of which are rounded: the one coordinate exactly and the
other to about half a pixel. So the line between the rounded points is never more than a little
over half a pixel off, its pixels half a pixel more, and pixels of the two lines that are in one
column are the same or neighbours. Where the rounded points are on the line itself there is no
difference at all.
-/
namespace PatternScript.Segment

/-- Of two pixels: the same place along the longer side of a line, and at most one pixel apart
along the shorter. -/
def SideBySide (x₀ y₀ x₁ y₁ : Int) (p q : Int × Int) : Prop :=
  (|y₁ - y₀| ≤ |x₁ - x₀| ∧ p.1 = q.1 ∧ |p.2 - q.2| ≤ 1) ∨
    (|x₁ - x₀| ≤ |y₁ - y₀| ∧ p.2 = q.2 ∧ |p.1 - q.1| ≤ 1)

structure Inside (x₀ y₀ x₁ y₁ width height : Int) (t : ℚ) : Prop where
  x : -1 < x₀ + t * (x₁ - x₀) ∧ x₀ + t * (x₁ - x₀) < width
  y : -1 < y₀ + t * (y₁ - y₀) ∧ y₀ + t * (y₁ - y₀) < height

structure Within (x₀ y₀ x₁ y₁ width height : Int) (t : ℚ) : Prop where
  x : -1 ≤ x₀ + t * (x₁ - x₀) ∧ x₀ + t * (x₁ - x₀) ≤ width
  y : -1 ≤ y₀ + t * (y₁ - y₀) ∧ y₀ + t * (y₁ - y₀) ≤ height

def OnBorder (x₀ y₀ x₁ y₁ width height : Int) (t : ℚ) : Prop :=
  (x₀ ≠ x₁ ∧ ∃ n : Int, (n = -1 ∨ n = width) ∧ x₀ + t * (x₁ - x₀) = n) ∨
    (y₀ ≠ y₁ ∧ ∃ n : Int, (n = -1 ∨ n = height) ∧ y₀ + t * (y₁ - y₀) = n)

/-- It leads to the middle of a pixel. -/
def LeadsTo (x₀ y₀ x₁ y₁ : Int) (t : ℚ) (c : Int × Int) : Prop :=
  (c.1 : ℚ) = x₀ + t * (x₁ - x₀) ∧ (c.2 : ℚ) = y₀ + t * (y₁ - y₀)

/-- Where the line passes through a border of the window, it does so in the middle of a pixel. -/
def CrossesWhole (x₀ y₀ x₁ y₁ width height : Int) : Prop :=
  ∀ t, 0 ≤ t → t ≤ 1 → Within x₀ y₀ x₁ y₁ width height t →
    OnBorder x₀ y₀ x₁ y₁ width height t → ∃ c, LeadsTo x₀ y₀ x₁ y₁ t c

/-- A line is cut after the part `t` of its length and at `c`, which is that point rounded. A cut
is at the end of the line where it is made, which is after the part `r`, or on a border. -/
structure CutAt (x₀ y₀ x₁ y₁ width height r : Int) (t : ℚ) (c : Int × Int) : Prop where
  nonneg : 0 ≤ t
  le_one : t ≤ 1
  x : |c.1 - (x₀ + t * (x₁ - x₀))| ≤ 5 / 8
  y : |c.2 - (y₀ + t * (y₁ - y₀))| ≤ 5 / 8
  border : t = r ∨ OnBorder x₀ y₀ x₁ y₁ width height t

/-- A line is cut at `c` and `d`, and what is between the borders is between the two. Of a line
that passes a corner of the window by a hair, the end may be cut before the start. -/
structure CutTo (x₀ y₀ x₁ y₁ width height : Int) (t₀ t₁ : ℚ) (c d : Int × Int) : Prop where
  first : CutAt x₀ y₀ x₁ y₁ width height 0 t₀ c
  last : CutAt x₀ y₀ x₁ y₁ width height 1 t₁ d
  order_x : (t₀ - t₁) * |(x₁ - x₀ : ℚ)| ≤ 1 / 8
  order_y : (t₀ - t₁) * |(y₁ - y₀ : ℚ)| ≤ 1 / 8
  keeps : ∀ t, 0 ≤ t → t ≤ 1 → Inside x₀ y₀ x₁ y₁ width height t → t₀ ≤ t ∧ t ≤ t₁
  within : ∀ t, t₀ ≤ t → t ≤ t₁ → Within x₀ y₀ x₁ y₁ width height t

section Swapped

variable {x₀ y₀ x₁ y₁ width height r : Int} {t t₀ t₁ : ℚ} {c d p q : Int × Int}

theorem sideBySide_swap :
    SideBySide y₀ x₀ y₁ x₁ p.swap q.swap ↔ SideBySide x₀ y₀ x₁ y₁ p q :=
  or_comm

theorem Inside.swap (h : Inside x₀ y₀ x₁ y₁ width height t) :
    Inside y₀ x₀ y₁ x₁ height width t :=
  ⟨h.y, h.x⟩

theorem Within.swap (h : Within x₀ y₀ x₁ y₁ width height t) :
    Within y₀ x₀ y₁ x₁ height width t :=
  ⟨h.y, h.x⟩

theorem LeadsTo.swap (h : LeadsTo x₀ y₀ x₁ y₁ t c) : LeadsTo y₀ x₀ y₁ x₁ t c.swap :=
  And.symm h

theorem CutAt.swap (h : CutAt x₀ y₀ x₁ y₁ width height r t c) :
    CutAt y₀ x₀ y₁ x₁ height width r t c.swap where
  nonneg := h.nonneg
  le_one := h.le_one
  x := h.y
  y := h.x
  border := h.border.imp_right Or.symm

theorem CutTo.swap (h : CutTo x₀ y₀ x₁ y₁ width height t₀ t₁ c d) :
    CutTo y₀ x₀ y₁ x₁ height width t₀ t₁ c.swap d.swap where
  first := h.first.swap
  last := h.last.swap
  order_x := h.order_y
  order_y := h.order_x
  keeps t hlow hhigh hin := h.keeps t hlow hhigh hin.swap
  within t hlow hhigh := (h.within t hlow hhigh).swap

theorem CrossesWhole.swap (h : CrossesWhole x₀ y₀ x₁ y₁ width height) :
    CrossesWhole y₀ x₀ y₁ x₁ height width := by
  intro t ht ht' hin hborder
  obtain ⟨c, hc⟩ := h t ht ht' hin.swap hborder.symm
  exact ⟨c.swap, hc.swap⟩

end Swapped

section Distance

variable {x₀ y₀ x₁ y₁ width height r : Int} {t t₀ t₁ : ℚ} {c d p q : Int × Int}

def offset (x₀ y₀ x₁ y₁ : Int) (x y : ℚ) : ℚ := (y - y₀) * (x₁ - x₀) - (x - x₀) * (y₁ - y₀)

def Aside (u v η : ℚ) : Prop := (u = 0 ∧ |v| ≤ η) ∨ (v = 0 ∧ |u| ≤ η)

theorem Aside.abs_le {u v η dx dy M : ℚ} (h : Aside u v η) (hdx : |dx| ≤ M) (hdy : |dy| ≤ M) :
    |v * dx - u * dy| ≤ η * M := by
  rcases h with ⟨rfl, h⟩ | ⟨rfl, h⟩
  · rw [zero_mul, sub_zero, abs_mul]
    exact mul_le_mul h hdx (abs_nonneg _) ((abs_nonneg _).trans h)
  · rw [zero_mul, zero_sub, abs_neg, abs_mul]
    exact mul_le_mul h hdy (abs_nonneg _) ((abs_nonneg _).trans h)

theorem Near.swap (h : Near x₀ y₀ x₁ y₁ p) : Near y₀ x₀ y₁ x₁ p.swap := by
  obtain ⟨⟨hx, hy⟩, hoff⟩ := h
  refine ⟨⟨hy, hx⟩, ?_⟩
  rw [← Int.neg_sub, Int.natAbs_neg] at hoff
  rw [Nat.max_comm]
  exact hoff

def partOf (a b n : Int) : ℚ := (n - a) / (b - a)

theorem add_partOf_mul {a b : Int} (hne : a ≠ b) (n : Int) : a + partOf a b n * (b - a) = n := by
  have hne' : (b - a : ℚ) ≠ 0 := sub_ne_zero.2 (by exact_mod_cast hne.symm)
  rw [partOf, div_mul_cancel₀ _ hne']
  ring

theorem partOf_between {a b n : Int} (hne : a ≠ b) (h : min a b ≤ n ∧ n ≤ max a b) :
    0 ≤ partOf a b n ∧ partOf a b n ≤ 1 := by
  obtain ⟨hlow, hhigh⟩ := h
  rw [partOf]
  rcases lt_or_gt_of_ne hne with hlt | hlt
  · have hpos : (0 : ℚ) < b - a := sub_pos.2 (by exact_mod_cast hlt)
    have ha : (a : ℚ) ≤ n := by exact_mod_cast (show a ≤ n by omega)
    have hb : (n : ℚ) ≤ b := by exact_mod_cast (show n ≤ b by omega)
    rw [le_div_iff₀ hpos, div_le_iff₀ hpos]
    exact ⟨by linarith, by linarith⟩
  · have hneg : (b - a : ℚ) < 0 := sub_neg.2 (by exact_mod_cast hlt)
    have ha : (n : ℚ) ≤ a := by exact_mod_cast (show n ≤ a by omega)
    have hb : (b : ℚ) ≤ n := by exact_mod_cast (show b ≤ n by omega)
    rw [le_div_iff_of_neg hneg, div_le_iff_of_neg hneg]
    exact ⟨by linarith, by linarith⟩

theorem abs_sub_pos {a b : Int} (hne : a ≠ b) : 0 < |(b - a : ℚ)| :=
  abs_pos.2 (sub_ne_zero.2 (by exact_mod_cast hne.symm))

theorem abs_row_sub_le (h : Near x₀ y₀ x₁ y₁ p) (hne : x₀ ≠ x₁) (hle : |y₁ - y₀| ≤ |x₁ - x₀|) :
    |(p.2 - (y₀ + partOf x₀ x₁ p.1 * (y₁ - y₀)) : ℚ)| ≤ 1 / 2 := by
  have hoff := h.2
  have hcolumn := add_partOf_mul hne p.1
  have hoff' : 2 * |((p.2 - y₀) * (x₁ - x₀) - (p.1 - x₀) * (y₁ - y₀) : ℚ)| ≤ |(x₁ - x₀ : ℚ)| := by
    rw [Int.abs_eq_natAbs, Int.abs_eq_natAbs, Int.ofNat_le] at hle
    rw [Nat.max_eq_left hle] at hoff
    have hint : 2 * |(p.2 - y₀) * (x₁ - x₀) - (p.1 - x₀) * (y₁ - y₀)| ≤ |x₁ - x₀| := by
      rw [Int.abs_eq_natAbs, Int.abs_eq_natAbs]
      exact_mod_cast hoff
    exact_mod_cast hint
  generalize partOf x₀ x₁ p.1 = t at *
  refine le_of_mul_le_mul_right ?_ (abs_sub_pos hne)
  have hsplit : ((p.2 - (y₀ + t * (y₁ - y₀))) * (x₁ - x₀) : ℚ) =
      (p.2 - y₀) * (x₁ - x₀) - (p.1 - x₀) * (y₁ - y₀) := by
    rw [← hcolumn]
    ring
  rw [← abs_mul, hsplit]
  linarith

theorem exists_part_of_wide (h : Near x₀ y₀ x₁ y₁ p) (hne : x₀ ≠ x₁)
    (hle : |y₁ - y₀| ≤ |x₁ - x₀|) : ∃ t u v : ℚ, 0 ≤ t ∧ t ≤ 1 ∧
    p.1 = x₀ + t * (x₁ - x₀) + u ∧ p.2 = y₀ + t * (y₁ - y₀) + v ∧ Aside u v (1 / 2) := by
  obtain ⟨hlow, hhigh⟩ := partOf_between hne h.1.1
  refine ⟨partOf x₀ x₁ p.1, 0, p.2 - (y₀ + partOf x₀ x₁ p.1 * (y₁ - y₀)), hlow, hhigh, ?_, by ring,
    .inl ⟨rfl, abs_row_sub_le h hne hle⟩⟩
  rw [add_partOf_mul hne, add_zero]

theorem ne_of_not_point (hpoint : ¬(x₀ = x₁ ∧ y₀ = y₁)) (hle : |y₁ - y₀| ≤ |x₁ - x₀|) :
    x₀ ≠ x₁ := by
  rintro rfl
  rw [sub_self, abs_zero, abs_nonpos_iff] at hle
  omega

theorem exists_part_of_near (h : Near x₀ y₀ x₁ y₁ p) : ∃ t u v : ℚ, 0 ≤ t ∧ t ≤ 1 ∧
    p.1 = x₀ + t * (x₁ - x₀) + u ∧ p.2 = y₀ + t * (y₁ - y₀) + v ∧ Aside u v (1 / 2) := by
  by_cases hpoint : x₀ = x₁ ∧ y₀ = y₁
  · obtain ⟨⟨hx, hy⟩, -⟩ := h
    have hx' : p.1 = x₀ := by omega
    have hy' : p.2 = y₀ := by omega
    exact ⟨0, 0, 0, le_rfl, zero_le_one, by simp [hx'], by simp [hy'], .inl ⟨rfl, by norm_num⟩⟩
  · rcases le_total |y₁ - y₀| |x₁ - x₀| with hle | hle
    · exact exists_part_of_wide h (ne_of_not_point hpoint hle) hle
    · obtain ⟨t, u, v, hlow, hhigh, hx, hy, haside⟩ :=
        exists_part_of_wide h.swap (ne_of_not_point (hpoint ∘ And.symm) hle) hle
      exact ⟨t, v, u, hlow, hhigh, hy, hx, haside.symm⟩

def reach (x₀ y₀ x₁ y₁ : Int) : ℚ := max |(x₁ - x₀ : ℚ)| |(y₁ - y₀ : ℚ)|

theorem abs_offset_le_of_aside {x y u v η : ℚ} (haside : Aside u v η)
    (hx : x = x₀ + t * (x₁ - x₀) + u) (hy : y = y₀ + t * (y₁ - y₀) + v) :
    |offset x₀ y₀ x₁ y₁ x y| ≤ η * reach x₀ y₀ x₁ y₁ := by
  have hoffset : offset x₀ y₀ x₁ y₁ x y = v * (x₁ - x₀) - u * (y₁ - y₀) := by
    rw [offset, hx, hy]
    ring
  rw [hoffset]
  exact haside.abs_le (le_max_left _ _) (le_max_right _ _)

theorem eq_of_abs_sub_lt {m n : Int} {z : ℚ} (hz : z = n) (h : |m - z| ≤ 5 / 8) : m = n := by
  rw [hz] at h
  have hlt : |m - n| < 1 := by exact_mod_cast h.trans_lt (show (5 / 8 : ℚ) < 1 by norm_num)
  exact sub_eq_zero.1 (Int.abs_lt_one_iff.1 hlt)

theorem CutAt.aside (h : CutAt x₀ y₀ x₁ y₁ width height r t c) :
    Aside (c.1 - (x₀ + t * (x₁ - x₀))) (c.2 - (y₀ + t * (y₁ - y₀))) (5 / 8) := by
  have hx (n : Int) (hn : x₀ + t * (x₁ - x₀) = n) :
      Aside (c.1 - (x₀ + t * (x₁ - x₀))) (c.2 - (y₀ + t * (y₁ - y₀))) (5 / 8) := by
    refine .inl ⟨?_, h.y⟩
    rw [eq_of_abs_sub_lt hn h.x, hn, sub_self]
  rcases h.border with rfl | ⟨-, n, -, hn⟩ | ⟨-, n, -, hn⟩
  · exact hx (x₀ + r * (x₁ - x₀)) (by push_cast; rfl)
  · exact hx n hn
  · refine .inr ⟨?_, h.x⟩
    rw [eq_of_abs_sub_lt hn h.y, hn, sub_self]

theorem CutAt.abs_offset_le (h : CutAt x₀ y₀ x₁ y₁ width height r t c) :
    |offset x₀ y₀ x₁ y₁ c.1 c.2| ≤ 5 / 8 * reach x₀ y₀ x₁ y₁ :=
  abs_offset_le_of_aside h.aside (t := t) (by ring) (by ring)

theorem CutTo.abs_offset_le (h : CutTo x₀ y₀ x₁ y₁ width height t₀ t₁ c d)
    (hp : Near c.1 c.2 d.1 d.2 p) :
    |offset x₀ y₀ x₁ y₁ p.1 p.2| ≤ 9 / 8 * reach x₀ y₀ x₁ y₁ := by
  obtain ⟨t, u, v, hlow, hhigh, hx, hy, haside⟩ := exists_part_of_near hp
  have hsplit : offset x₀ y₀ x₁ y₁ p.1 p.2 = (1 - t) * offset x₀ y₀ x₁ y₁ c.1 c.2 +
      t * offset x₀ y₀ x₁ y₁ d.1 d.2 + (v * (x₁ - x₀) - u * (y₁ - y₀)) := by
    rw [hx, hy, offset, offset, offset]
    ring
  have hends : |(1 - t) * offset x₀ y₀ x₁ y₁ c.1 c.2 + t * offset x₀ y₀ x₁ y₁ d.1 d.2| ≤
      5 / 8 * reach x₀ y₀ x₁ y₁ := by
    have hc := abs_le.1 h.first.abs_offset_le
    have hd := abs_le.1 h.last.abs_offset_le
    generalize offset x₀ y₀ x₁ y₁ c.1 c.2 = oc at *
    generalize offset x₀ y₀ x₁ y₁ d.1 d.2 = od at *
    generalize 5 / 8 * reach x₀ y₀ x₁ y₁ = B at *
    rw [abs_le]
    constructor
    · nlinarith
    · nlinarith
  have haside' : |v * (x₁ - x₀) - u * (y₁ - y₀)| ≤ 1 / 2 * reach x₀ y₀ x₁ y₁ :=
    haside.abs_le (le_max_left _ _) (le_max_right _ _)
  rw [hsplit]
  refine (abs_add_le _ _).trans ?_
  linarith

theorem abs_offset_le_of_near (hp : Near x₀ y₀ x₁ y₁ p) :
    |offset x₀ y₀ x₁ y₁ p.1 p.2| ≤ 1 / 2 * reach x₀ y₀ x₁ y₁ := by
  obtain ⟨t, u, v, -, -, hx, hy, haside⟩ := exists_part_of_near hp
  exact abs_offset_le_of_aside haside hx hy

end Distance

section Wide

variable {x₀ y₀ x₁ y₁ width height r : Int} {t t₀ t₁ : ℚ} {c d p q : Int × Int}

theorem sideBySide_of_offset (hne : x₀ ≠ x₁) (hle : |y₁ - y₀| ≤ |x₁ - x₀|)
    (hp : |offset x₀ y₀ x₁ y₁ p.1 p.2| ≤ 9 / 8 * reach x₀ y₀ x₁ y₁)
    (hq : |offset x₀ y₀ x₁ y₁ q.1 q.2| ≤ 1 / 2 * reach x₀ y₀ x₁ y₁) (hcolumn : p.1 = q.1) :
    SideBySide x₀ y₀ x₁ y₁ p q := by
  have hreach : reach x₀ y₀ x₁ y₁ = |(x₁ - x₀ : ℚ)| := max_eq_left (by exact_mod_cast hle)
  have hpos := abs_sub_pos hne
  have hdiff : |(p.2 - q.2 : ℚ)| * |(x₁ - x₀ : ℚ)| ≤ 13 / 8 * |(x₁ - x₀ : ℚ)| := by
    rw [← abs_mul]
    have hsplit : ((p.2 - q.2) * (x₁ - x₀) : ℚ) =
        offset x₀ y₀ x₁ y₁ p.1 p.2 - offset x₀ y₀ x₁ y₁ q.1 q.2 := by
      rw [offset, offset, hcolumn]
      ring
    rw [hsplit]
    refine (abs_sub _ _).trans ?_
    rw [hreach] at hp hq
    linarith
  have hlt : |p.2 - q.2| < 2 := by
    exact_mod_cast (le_of_mul_le_mul_right hdiff hpos).trans_lt (show (13 / 8 : ℚ) < 2 by norm_num)
  exact .inl ⟨hle, hcolumn, by omega⟩

theorem le_of_rounded {m n : Int} {z : ℚ} (h : |m - z| ≤ 5 / 8) (hz : n - 1 / 4 ≤ z) : n ≤ m := by
  rw [abs_le] at h
  have hlt : ((n - 1 : Int) : ℚ) < m := by
    push_cast
    linarith
  have := Int.cast_lt.1 hlt
  omega

theorem ge_of_rounded {m n : Int} {z : ℚ} (h : |m - z| ≤ 5 / 8) (hz : z ≤ n + 1 / 4) : m ≤ n := by
  rw [abs_le] at h
  have hlt : (m : ℚ) < ((n + 1 : Int) : ℚ) := by
    push_cast
    linarith
  have := Int.cast_lt.1 hlt
  omega

theorem CutAt.between (h : CutAt x₀ y₀ x₁ y₁ width height r t c) :
    min x₀ x₁ ≤ c.1 ∧ c.1 ≤ max x₀ x₁ := by
  have hlow := h.nonneg
  have hhigh := h.le_one
  rcases le_total x₀ x₁ with hle | hle
  · have hle' : (x₀ : ℚ) ≤ x₁ := by exact_mod_cast hle
    have := le_of_rounded h.x (n := x₀) (by nlinarith)
    have := ge_of_rounded h.x (n := x₁) (by nlinarith)
    omega
  · have hle' : (x₁ : ℚ) ≤ x₀ := by exact_mod_cast hle
    have := le_of_rounded h.x (n := x₁) (by nlinarith)
    have := ge_of_rounded h.x (n := x₀) (by nlinarith)
    omega

theorem CutTo.exists_beside (h : CutTo x₀ y₀ x₁ y₁ width height t₀ t₁ c d) (hne : x₀ ≠ x₁)
    (hle : |y₁ - y₀| ≤ |x₁ - x₀|) (hp : p ∈ pixels c.1 c.2 d.1 d.2) :
    ∃ q ∈ pixels x₀ y₀ x₁ y₁, SideBySide x₀ y₀ x₁ y₁ p q := by
  have hnear := near_of_mem_pixels hp
  have hc := h.first.between
  have hd := h.last.between
  have hcolumn := hnear.1.1
  obtain ⟨q, hq, heq⟩ : ∃ q ∈ pixels x₀ y₀ x₁ y₁, q.1 = p.1 :=
    exists_pixel_of_column (by omega) (by omega)
  have hnear' := near_of_mem_pixels hq
  exact ⟨q, hq, sideBySide_of_offset hne hle (h.abs_offset_le hnear) (abs_offset_le_of_near hnear')
    heq.symm⟩

def OnSurface (width height : Int) (p : Int × Int) : Prop :=
  (0 ≤ p.1 ∧ p.1 < width) ∧ 0 ≤ p.2 ∧ p.2 < height

instance (width height : Int) (p : Int × Int) : Decidable (OnSurface width height p) :=
  inferInstanceAs (Decidable (_ ∧ _))

def OnWindow (width height : Int) (p : Int × Int) : Prop :=
  (-1 ≤ p.1 ∧ p.1 ≤ width) ∧ -1 ≤ p.2 ∧ p.2 ≤ height

theorem inside_partOf (hne : x₀ ≠ x₁) (hle : |y₁ - y₀| ≤ |x₁ - x₀|)
    (hq : Near x₀ y₀ x₁ y₁ q) (hon : OnSurface width height q) :
    Inside x₀ y₀ x₁ y₁ width height (partOf x₀ x₁ q.1) := by
  have hcolumn := add_partOf_mul hne q.1
  have hrow := abs_le.1 (abs_row_sub_le hq hne hle)
  obtain ⟨⟨hx, hx'⟩, hy, hy'⟩ := hon
  have hx : (0 : ℚ) ≤ q.1 := by exact_mod_cast hx
  have hx' : (q.1 : ℚ) < width := by exact_mod_cast hx'
  have hy : (0 : ℚ) ≤ q.2 := by exact_mod_cast hy
  have hy' : (q.2 + 1 : ℚ) ≤ height := by exact_mod_cast hy'
  exact ⟨⟨by linarith, by linarith⟩, by linarith, by linarith⟩

theorem CutTo.column_between (h : CutTo x₀ y₀ x₁ y₁ width height t₀ t₁ c d) (hne : x₀ ≠ x₁)
    (hle : |y₁ - y₀| ≤ |x₁ - x₀|) (hq : Near x₀ y₀ x₁ y₁ q) (hon : OnSurface width height q) :
    (x₀ < x₁ → c.1 ≤ q.1 ∧ q.1 ≤ d.1) ∧ (x₁ < x₀ → d.1 ≤ q.1 ∧ q.1 ≤ c.1) := by
  have hpart := partOf_between hne hq.1.1
  obtain ⟨hfirst, hlast⟩ := h.keeps _ hpart.1 hpart.2 (inside_partOf hne hle hq hon)
  have hcolumn := add_partOf_mul hne q.1
  refine ⟨fun hlt => ?_, fun hlt => ?_⟩
  · have hpos : (0 : ℚ) ≤ x₁ - x₀ := sub_nonneg.2 (by exact_mod_cast hlt.le)
    have hfirst' := mul_le_mul_of_nonneg_right hfirst hpos
    have hlast' := mul_le_mul_of_nonneg_right hlast hpos
    exact ⟨ge_of_rounded h.first.x (by linarith), le_of_rounded h.last.x (by linarith)⟩
  · have hneg : (x₁ - x₀ : ℚ) ≤ 0 := sub_nonpos.2 (by exact_mod_cast hlt.le)
    have hfirst' := mul_le_mul_of_nonpos_right hfirst hneg
    have hlast' := mul_le_mul_of_nonpos_right hlast hneg
    exact ⟨ge_of_rounded h.last.x (by linarith), le_of_rounded h.first.x (by linarith)⟩

theorem CutTo.exists_beside_of_onSurface (h : CutTo x₀ y₀ x₁ y₁ width height t₀ t₁ c d)
    (hne : x₀ ≠ x₁) (hle : |y₁ - y₀| ≤ |x₁ - x₀|) (hq : q ∈ pixels x₀ y₀ x₁ y₁)
    (hon : OnSurface width height q) :
    ∃ p ∈ pixels c.1 c.2 d.1 d.2, SideBySide x₀ y₀ x₁ y₁ p q := by
  have hnear := near_of_mem_pixels hq
  have hcolumn := h.column_between hne hle hnear hon
  obtain ⟨p, hp, heq⟩ : ∃ p ∈ pixels c.1 c.2 d.1 d.2, p.1 = q.1 :=
    exists_pixel_of_column (by omega) (by omega)
  have hnear' := near_of_mem_pixels hp
  exact ⟨p, hp, sideBySide_of_offset hne hle (h.abs_offset_le hnear') (abs_offset_le_of_near hnear)
    heq⟩

theorem wide_of_le (hne : x₀ ≠ x₁) (hle : |y₁ - y₀| ≤ |x₁ - x₀|) :
    Wide x₀ y₀ x₁ y₁ (direction x₀ x₁) (direction y₀ y₁) |x₁ - x₀| |y₁ - y₀| := by
  have hsign (a b : Int) : direction a b = 1 ∨ direction a b = -1 := by
    rw [direction]
    split_ifs <;> simp
  have hlength (a b : Int) : direction a b * (b - a) = |b - a| := by
    rw [direction, Int.abs_eq_natAbs]
    split_ifs <;> omega
  exact ⟨hsign _ _, hsign _ _, hlength _ _, hlength _ _, abs_pos.2 (sub_ne_zero.2 hne.symm),
    abs_nonneg _, hle⟩

theorem LeadsTo.onLine (h : LeadsTo x₀ y₀ x₁ y₁ t c) : OnLine x₀ y₀ x₁ y₁ c := by
  obtain ⟨hx, hy⟩ := h
  have heq : ((c.2 - y₀) * (x₁ - x₀) : ℚ) = (c.1 - x₀) * (y₁ - y₀) := by
    rw [hx, hy]
    ring
  exact_mod_cast heq

theorem LeadsTo.width_eq {sx sy dx dy : Int} (hw : Wide x₀ y₀ x₁ y₁ sx sy dx dy)
    (h : LeadsTo x₀ y₀ x₁ y₁ t c) : ((sx * (c.1 - x₀) : Int) : ℚ) = t * dx := by
  rw [← hw.width]
  push_cast
  rw [h.1]
  ring

theorem CutTo.mem_pixels_iff_of_leadsTo (h : CutTo x₀ y₀ x₁ y₁ width height t₀ t₁ c d)
    (hne : x₀ ≠ x₁) (hle : |y₁ - y₀| ≤ |x₁ - x₀|) (horder : t₀ ≤ t₁)
    (hc : LeadsTo x₀ y₀ x₁ y₁ t₀ c) (hd : LeadsTo x₀ y₀ x₁ y₁ t₁ d)
    (hon : OnSurface width height q) : q ∈ pixels c.1 c.2 d.1 d.2 ↔ q ∈ pixels x₀ y₀ x₁ y₁ := by
  have hw := wide_of_le hne hle
  have hcx := hc.width_eq hw
  have hdx := hd.width_eq hw
  have hlength : (0 : ℚ) ≤ (|x₁ - x₀| : Int) := by exact_mod_cast hw.pos.le
  rw [hw.mem_pixels_part_iff hc.onLine hd.onLine ?start ?stop ?order]
  · refine ⟨And.left, fun hq => ⟨hq, ?_⟩⟩
    have hcolumn := h.column_between hne hle (near_of_mem_pixels hq) hon
    rw [direction]
    split_ifs <;> omega
  case start =>
    have hpos := mul_nonneg h.first.nonneg hlength
    rw [← hcx] at hpos
    exact_mod_cast hpos
  case stop =>
    have hlast := mul_le_of_le_one_left hlength h.last.le_one
    rw [← hdx] at hlast
    exact_mod_cast hlast
  case order =>
    have hscaled := mul_le_mul_of_nonneg_right horder hlength
    rw [← hcx, ← hdx] at hscaled
    exact_mod_cast hscaled

end Wide

section Exact

variable {x₀ y₀ x₁ y₁ width height r : Int} {t t₀ t₁ : ℚ} {c d p q : Int × Int}

theorem leadsTo_of_whole (hc : |c.1 - (x₀ + t * (x₁ - x₀))| ≤ 5 / 8)
    (hc' : |c.2 - (y₀ + t * (y₁ - y₀))| ≤ 5 / 8) (hd : LeadsTo x₀ y₀ x₁ y₁ t d) :
    LeadsTo x₀ y₀ x₁ y₁ t c := by
  have heq : c = d := Prod.ext (eq_of_abs_sub_lt hd.1.symm hc) (eq_of_abs_sub_lt hd.2.symm hc')
  rwa [heq]

theorem CutAt.leadsTo (h : CutAt x₀ y₀ x₁ y₁ width height r t c)
    (hcross : CrossesWhole x₀ y₀ x₁ y₁ width height) (hin : Within x₀ y₀ x₁ y₁ width height t) :
    LeadsTo x₀ y₀ x₁ y₁ t c := by
  obtain ⟨d, hd⟩ : ∃ d, LeadsTo x₀ y₀ x₁ y₁ t d := by
    rcases h.border with rfl | hborder
    · exact ⟨(x₀ + r * (x₁ - x₀), y₀ + r * (y₁ - y₀)), by push_cast; rfl, by push_cast; rfl⟩
    · exact hcross t h.nonneg h.le_one hin hborder
  exact leadsTo_of_whole h.x h.y hd

theorem CutAt.not_onSurface (h : CutAt x₀ y₀ x₁ y₁ width height r t c) (hne : t ≠ r) :
    ¬ OnSurface width height c := by
  rintro ⟨⟨hx, hx'⟩, hy, hy'⟩
  rcases h.border with heq | ⟨-, n, hn, heq⟩ | ⟨-, n, hn, heq⟩
  · exact hne heq
  · have hcut := eq_of_abs_sub_lt heq h.x
    omega
  · have hcut := eq_of_abs_sub_lt heq h.y
    omega

theorem eq_or_eq_of_near (hx : |d.1 - c.1| ≤ 1) (hy : |d.2 - c.2| ≤ 1)
    (hp : Near c.1 c.2 d.1 d.2 p) : p = c ∨ p = d := by
  obtain ⟨⟨hcolumn, hrow⟩, hoff⟩ := hp
  rw [abs_le] at hx hy
  have hdx : d.1 - c.1 = -1 ∨ d.1 - c.1 = 0 ∨ d.1 - c.1 = 1 := by omega
  have hdy : d.2 - c.2 = -1 ∨ d.2 - c.2 = 0 ∨ d.2 - c.2 = 1 := by omega
  simp only [Prod.ext_iff]
  rcases hdx with hdx | hdx | hdx <;> rcases hdy with hdy | hdy | hdy <;>
    rw [hdx, hdy] at hoff <;> omega

theorem abs_sub_le_one_of_rounded {m n : Int} {z z' : ℚ} (hm : |m - z| ≤ 5 / 8)
    (hn : |n - z'| ≤ 5 / 8) (hz : |z' - z| ≤ 1 / 8) : |n - m| ≤ 1 := by
  rw [abs_le] at hm hn hz
  have hlow : ((-2 : Int) : ℚ) < (n - m : Int) := by
    push_cast
    linarith
  have hhigh : ((n - m : Int) : ℚ) < (2 : Int) := by
    push_cast
    linarith
  have := Int.cast_lt.1 hlow
  have := Int.cast_lt.1 hhigh
  rw [abs_le]
  omega

theorem CutTo.not_onSurface (h : CutTo x₀ y₀ x₁ y₁ width height t₀ t₁ c d) (hlt : t₁ < t₀)
    (hp : Near c.1 c.2 d.1 d.2 p) : ¬ OnSurface width height p := by
  have hshort {a b : Int} (horder : (t₀ - t₁) * |(b - a : ℚ)| ≤ 1 / 8) :
      |(a + t₁ * (b - a) - (a + t₀ * (b - a)) : ℚ)| ≤ 1 / 8 := by
    rw [add_sub_add_left_eq_sub, ← sub_mul, abs_mul, abs_sub_comm, abs_of_pos (sub_pos.2 hlt)]
    exact horder
  have hx := abs_sub_le_one_of_rounded h.first.x h.last.x (hshort h.order_x)
  have hy := abs_sub_le_one_of_rounded h.first.y h.last.y (hshort h.order_y)
  have hfirst := h.last.nonneg.trans_lt hlt
  have hlast := hlt.trans_le h.first.le_one
  rcases eq_or_eq_of_near hx hy hp with rfl | rfl
  · exact h.first.not_onSurface (by rw [Int.cast_zero]; exact hfirst.ne')
  · exact h.last.not_onSurface (by rw [Int.cast_one]; exact hlast.ne)

theorem CutTo.mem_pixels_iff (h : CutTo x₀ y₀ x₁ y₁ width height t₀ t₁ c d) (hne : x₀ ≠ x₁)
    (hle : |y₁ - y₀| ≤ |x₁ - x₀|) (hcross : CrossesWhole x₀ y₀ x₁ y₁ width height)
    (hon : OnSurface width height q) :
    q ∈ pixels c.1 c.2 d.1 d.2 ↔ q ∈ pixels x₀ y₀ x₁ y₁ := by
  rcases le_or_gt t₀ t₁ with horder | hlt
  · exact h.mem_pixels_iff_of_leadsTo hne hle horder
      (h.first.leadsTo hcross (h.within _ le_rfl horder))
      (h.last.leadsTo hcross (h.within _ horder le_rfl)) hon
  · refine iff_of_false (fun hq => h.not_onSurface hlt (near_of_mem_pixels hq) hon) fun hq => ?_
    have hnear := near_of_mem_pixels hq
    have hpart := partOf_between hne hnear.1.1
    obtain ⟨hfirst, hlast⟩ := h.keeps _ hpart.1 hpart.2 (inside_partOf hne hle hnear hon)
    exact (hfirst.trans hlast).not_gt hlt

theorem exists_leadsTo_of_diagonal {n : Int} (hslope : |x₁ - x₀| = |y₁ - y₀|)
    (hn : x₀ + t * (x₁ - x₀) = n) : ∃ c, LeadsTo x₀ y₀ x₁ y₁ t c := by
  rcases abs_eq_abs.1 hslope with heq | heq
  · have heq' : (x₁ - x₀ : ℚ) = y₁ - y₀ := by exact_mod_cast heq
    refine ⟨(n, y₀ + (n - x₀)), hn.symm, ?_⟩
    push_cast
    linear_combination t * heq' - hn
  · have heq' : (x₁ - x₀ : ℚ) = -(y₁ - y₀) := by exact_mod_cast heq
    refine ⟨(n, y₀ - (n - x₀)), hn.symm, ?_⟩
    push_cast
    linear_combination hn - t * heq'

theorem exists_leadsTo_of_column (heq : x₀ = x₁) {n : Int} (hn : y₀ + t * (y₁ - y₀) = n) :
    ∃ c, LeadsTo x₀ y₀ x₁ y₁ t c :=
  ⟨(x₀, n), by rw [heq, sub_self, mul_zero, add_zero], hn.symm⟩

theorem crossesWhole_of_straight (h : x₀ = x₁ ∨ y₀ = y₁ ∨ |x₁ - x₀| = |y₁ - y₀|) :
    CrossesWhole x₀ y₀ x₁ y₁ width height := by
  rintro t - - - (⟨hne, n, -, hn⟩ | ⟨hne, n, -, hn⟩)
  · rcases h with heq | heq | heq
    · exact absurd heq hne
    · exact (exists_leadsTo_of_column heq hn).imp' Prod.swap fun _ hc => hc.swap
    · exact exists_leadsTo_of_diagonal heq hn
  · rcases h with heq | heq | heq
    · exact exists_leadsTo_of_column heq hn
    · exact absurd heq hne
    · exact (exists_leadsTo_of_diagonal heq.symm hn).imp' Prod.swap fun _ hc => hc.swap

theorem eq_zero_or_eq_one_of_extreme {a b n : Int} (hne : a ≠ b) (ht : 0 ≤ t) (ht' : t ≤ 1)
    (hn : a + t * (b - a) = n) (h : (n ≤ a ∧ n ≤ b) ∨ (a ≤ n ∧ b ≤ n)) : t = 0 ∨ t = 1 := by
  have hsum : (1 - t) * (a - n) + t * (b - n) = 0 := by linear_combination hn
  have hzero : (1 - t) * (a - n) = 0 ∧ t * (b - n) = 0 := by
    rcases h with ⟨ha, hb⟩ | ⟨ha, hb⟩
    · have ha' : (0 : ℚ) ≤ a - n := sub_nonneg.2 (by exact_mod_cast ha)
      have hb' : (0 : ℚ) ≤ b - n := sub_nonneg.2 (by exact_mod_cast hb)
      have hleft := mul_nonneg (sub_nonneg.2 ht') ha'
      have hright := mul_nonneg ht hb'
      exact ⟨by linarith, by linarith⟩
    · have ha' : (a - n : ℚ) ≤ 0 := sub_nonpos.2 (by exact_mod_cast ha)
      have hb' : (b - n : ℚ) ≤ 0 := sub_nonpos.2 (by exact_mod_cast hb)
      have hleft := mul_nonpos_of_nonneg_of_nonpos (sub_nonneg.2 ht') ha'
      have hright := mul_nonpos_of_nonneg_of_nonpos ht hb'
      exact ⟨by linarith, by linarith⟩
  rcases mul_eq_zero.1 hzero.1 with hone | ha
  · exact .inr (sub_eq_zero.1 hone).symm
  · refine .inl ((mul_eq_zero.1 hzero.2).resolve_right fun hb => hne ?_)
    exact_mod_cast (sub_eq_zero.1 ha).trans (sub_eq_zero.1 hb).symm

theorem crossesWhole_of_onWindow (h₀ : OnWindow width height (x₀, y₀))
    (h₁ : OnWindow width height (x₁, y₁)) : CrossesWhole x₀ y₀ x₁ y₁ width height := by
  obtain ⟨⟨hx₀, hx₀'⟩, hy₀, hy₀'⟩ := h₀
  obtain ⟨⟨hx₁, hx₁'⟩, hy₁, hy₁'⟩ := h₁
  have hends {t : ℚ} (h : t = 0 ∨ t = 1) : ∃ c, LeadsTo x₀ y₀ x₁ y₁ t c := by
    rcases h with rfl | rfl
    · exact ⟨(x₀, y₀), by ring, by ring⟩
    · exact ⟨(x₁, y₁), by ring, by ring⟩
  rintro t ht ht' - (⟨hne, n, hborder, hn⟩ | ⟨hne, n, hborder, hn⟩)
  · exact hends (eq_zero_or_eq_one_of_extreme hne ht ht' hn (by omega))
  · exact hends (eq_zero_or_eq_one_of_extreme hne ht ht' hn (by omega))

end Exact

/-- What the pixels from `c` to `d` have to do with those of a line that was cut there. -/
structure Resembles (x₀ y₀ x₁ y₁ width height : Int) (c d : Int × Int) : Prop where
  near : ∀ p ∈ pixels c.1 c.2 d.1 d.2, ∃ q ∈ pixels x₀ y₀ x₁ y₁, SideBySide x₀ y₀ x₁ y₁ p q
  covers : ∀ q ∈ pixels x₀ y₀ x₁ y₁, OnSurface width height q →
    ∃ p ∈ pixels c.1 c.2 d.1 d.2, SideBySide x₀ y₀ x₁ y₁ p q
  exact : CrossesWhole x₀ y₀ x₁ y₁ width height → ∀ q, OnSurface width height q →
    (q ∈ pixels c.1 c.2 d.1 d.2 ↔ q ∈ pixels x₀ y₀ x₁ y₁)

section Resemblance

variable {x₀ y₀ x₁ y₁ width height : Int} {t₀ t₁ : ℚ} {c d : Int × Int}

theorem Resembles.swap (h : Resembles y₀ x₀ y₁ x₁ height width c.swap d.swap) :
    Resembles x₀ y₀ x₁ y₁ width height c d where
  near p hp := by
    obtain ⟨q, hq, hbeside⟩ := h.near p.swap (mem_pixels_swap.2 hp)
    exact ⟨q.swap, mem_pixels_swap.1 hq, sideBySide_swap.1 hbeside⟩
  covers q hq hon := by
    obtain ⟨p, hp, hbeside⟩ := h.covers q.swap (mem_pixels_swap.2 hq) hon.symm
    exact ⟨p.swap, mem_pixels_swap.1 hp, sideBySide_swap.1 hbeside⟩
  exact hcross q hon :=
    (mem_pixels_swap.symm.trans (h.exact hcross.swap q.swap hon.symm)).trans mem_pixels_swap

theorem CutTo.resembles_of_wide (h : CutTo x₀ y₀ x₁ y₁ width height t₀ t₁ c d) (hne : x₀ ≠ x₁)
    (hle : |y₁ - y₀| ≤ |x₁ - x₀|) : Resembles x₀ y₀ x₁ y₁ width height c d where
  near _ hp := h.exists_beside hne hle hp
  covers _ hq hon := h.exists_beside_of_onSurface hne hle hq hon
  exact hcross _ hon := h.mem_pixels_iff hne hle hcross hon

theorem CutTo.resembles (h : CutTo x₀ y₀ x₁ y₁ width height t₀ t₁ c d) :
    Resembles x₀ y₀ x₁ y₁ width height c d := by
  by_cases hpoint : x₀ = x₁ ∧ y₀ = y₁
  · obtain ⟨rfl, rfl⟩ := hpoint
    have hcut {r : Int} {t : ℚ} {c : Int × Int} (h : CutAt x₀ y₀ x₀ y₀ width height r t c) :
        c = (x₀, y₀) :=
      Prod.ext (eq_of_abs_sub_lt (by ring) h.x) (eq_of_abs_sub_lt (by ring) h.y)
    have hself (p : Int × Int) : SideBySide x₀ y₀ x₀ y₀ p p := .inl (by simp)
    rw [hcut h.first, hcut h.last]
    exact ⟨fun p hp => ⟨p, hp, hself p⟩, fun q hq _ => ⟨q, hq, hself q⟩, fun _ _ _ => Iff.rfl⟩
  · rcases le_total |y₁ - y₀| |x₁ - x₀| with hle | hle
    · exact h.resembles_of_wide (ne_of_not_point hpoint hle) hle
    · exact (h.swap.resembles_of_wide (ne_of_not_point (hpoint ∘ And.symm) hle) hle).swap

end Resemblance

end PatternScript.Segment
