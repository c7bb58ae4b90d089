import Mathlib.Algebra.Order.Field.Rat
import Mathlib.Tactic.FieldSimp
import Mathlib.Tactic.Linarith
import Mathlib.Tactic.LinearCombination
import PatternScript.Proofs.LineWalks

/-!
# Which pixels are on a line

Along its longer side a walk meets each column once, at the pixel that is nearest to the ideal
line there, where of two pixels that are equally near the farther one is taken. So the pixels of
a line make a strip around it, and a part of the line between two of its whole points has those
pixels of the strip that lie between them. Taken the other way round, with the two sides
exchanged, a line has the same pixels.
-/
namespace PatternScript.Segment

section Swapped

variable {x₀ y₀ x₁ y₁ : Int} {p : Int × Int}

theorem advance_swap (dx dy x y : Int) : advance dy dx y x = (advance dx dy x y).swap := by
  have hx : (2 * (dy * (x + 1) - dx * (y + 1)) ≥ -dx) ↔ 2 * (dx * (y + 1) - dy * (x + 1)) ≤ dx := by
    omega
  have hy : (2 * (dy * (x + 1) - dx * (y + 1)) ≤ dy) ↔
      2 * (dx * (y + 1) - dy * (x + 1)) ≥ -dy := by
    omega
  simp only [advance, hx, hy, Prod.swap_prod_mk]

theorem progress_swap (dx dy : Int) (k : Nat) : progress dy dx k = (progress dx dy k).swap := by
  induction k with
  | zero => rfl
  | succ k ih => rw [progress, ih, progress, ← advance_swap]; rfl

theorem pixelAfter_swap (k : Nat) :
    pixelAfter y₀ x₀ y₁ x₁ k = (pixelAfter x₀ y₀ x₁ y₁ k).swap := by
  simp only [pixelAfter, stateAfter, Walk.standing, Prod.swap_prod_mk]
  rw [progress_swap]
  rfl

theorem mem_pixels_swap : p.swap ∈ pixels y₀ x₀ y₁ x₁ ↔ p ∈ pixels x₀ y₀ x₁ y₁ := by
  have hsteps : steps y₀ x₀ y₁ x₁ = steps x₀ y₀ x₁ y₁ := Nat.max_comm _ _
  rw [pixels_eq, pixels_eq, hsteps, List.mem_map, List.mem_map]
  refine exists_congr fun k => and_congr_right fun _ => ?_
  rw [pixelAfter_swap, Prod.swap_inj]

end Swapped

section Strip

variable {dx dy : Int}

/-- Whether a pixel that is `x` along the longer side and `y` along the shorter is the one that
a walk meets there. -/
def InStrip (dx dy x y : Int) : Prop :=
  -dx < 2 * (y * dx - x * dy) ∧ 2 * (y * dx - x * dy) ≤ dx

instance (dx dy x y : Int) : Decidable (InStrip dx dy x y) :=
  inferInstanceAs (Decidable (_ ∧ _))

theorem InStrip.unique {x y y' : Int} (hpos : 0 < dx) (h : InStrip dx dy x y)
    (h' : InStrip dx dy x y') : y = y' := by
  obtain ⟨hlow, hhigh⟩ := h
  obtain ⟨hlow', hhigh'⟩ := h'
  have hdiff : (y - y') * dx = (y * dx - x * dy) - (y' * dx - x * dy) := by ring
  have hlt : (y - y') * dx < 1 * dx := by omega
  have hgt : -1 * dx < (y - y') * dx := by omega
  have := Int.lt_of_mul_lt_mul_right hlt hpos.le
  have := Int.lt_of_mul_lt_mul_right hgt hpos.le
  omega

theorem inStrip_of_eq {x y : Int} (hpos : 0 < dx) (hon : y * dx = x * dy) : InStrip dx dy x y := by
  rw [InStrip, hon, sub_self]
  omega

theorem inStrip_shift {x y X Y : Int} (hon : Y * dx = X * dy) :
    InStrip dx dy (x - X) (y - Y) ↔ InStrip dx dy x y := by
  have heq : (y - Y) * dx - (x - X) * dy = y * dx - x * dy := by linear_combination -hon
  rw [InStrip, InStrip, heq]

theorem inStrip_scale {dx' dy' x y : Int} (hpos : 0 < dx) (hpos' : 0 < dx')
    (hscale : dy' * dx = dx' * dy) : InStrip dx' dy' x y ↔ InStrip dx dy x y := by
  have heq : 2 * (y * dx' - x * dy') * dx = dx' * (2 * (y * dx - x * dy)) := by
    linear_combination -2 * x * hscale
  have hlow : -dx' < 2 * (y * dx' - x * dy') ↔ -dx < 2 * (y * dx - x * dy) := by
    rw [← Int.mul_lt_mul_right hpos, heq, Int.neg_mul, ← Int.mul_neg, Int.mul_lt_mul_left hpos']
  have hhigh : 2 * (y * dx' - x * dy') ≤ dx' ↔ 2 * (y * dx - x * dy) ≤ dx := by
    rw [← Int.mul_le_mul_right hpos, heq, Int.mul_le_mul_left hpos']
  rw [InStrip, InStrip, hlow, hhigh]

theorem inStrip_progress (hpos : 0 < dx) (hdy : 0 ≤ dy) (hle : dy ≤ dx) (k : Nat) :
    (progress dx dy k).1 = k ∧ InStrip dx dy k (progress dx dy k).2 := by
  induction k with
  | zero => exact ⟨rfl, by simp only [progress, InStrip]; omega⟩
  | succ k ih =>
    obtain ⟨hx, hlow, hhigh⟩ := ih
    have hwide := (along_progress hpos.le hdy (k + 1)).wide hle
    refine ⟨hwide, ?_⟩
    rw [progress, advance, hx]
    generalize (progress dx dy k).2 = y at *
    have hback : dx * (y + 1) - dy * (k + 1) = y * dx - k * dy + dx - dy := by ring
    have hrow : (y + 1) * dx = y * dx + dx := by ring
    have hcolumn : ((k : Int) + 1) * dy = k * dy + dy := by ring
    rw [hback, InStrip, Nat.cast_succ, hcolumn]
    dsimp only
    split_ifs
    · rw [hrow]
      omega
    · omega

end Strip

section Signed

variable {x₀ y₀ x₁ y₁ sx sy dx dy : Int} {p : Int × Int}

/-- The two ends of a line, seen in the direction in which both sides grow; the first of the two
is the longer one. -/
structure Wide (x₀ y₀ x₁ y₁ sx sy dx dy : Int) : Prop where
  sign_x : sx = 1 ∨ sx = -1
  sign_y : sy = 1 ∨ sy = -1
  width : sx * (x₁ - x₀) = dx
  height : sy * (y₁ - y₀) = dy
  pos : 0 < dx
  nonneg : 0 ≤ dy
  le : dy ≤ dx

theorem direction_eq {a b s d : Int} (hs : s = 1 ∨ s = -1) (hd : s * (b - a) = d) (hpos : 0 < d) :
    direction a b = s := by
  rw [direction]
  rcases hs with rfl | rfl <;> split_ifs <;> omega

theorem natAbs_eq {a b s d : Int} (hs : s = 1 ∨ s = -1) (hd : s * (b - a) = d) (hd' : 0 ≤ d) :
    ((b - a).natAbs : Int) = d := by
  rcases hs with rfl | rfl <;> omega

theorem mul_sign_mul {s n : Int} (hs : s = 1 ∨ s = -1) : s * (s * n) = n := by
  rcases hs with rfl | rfl <;> omega

theorem Wide.pixelAfter_eq (h : Wide x₀ y₀ x₁ y₁ sx sy dx dy) {k : Nat} (hk : k ≤ dx) :
    pixelAfter x₀ y₀ x₁ y₁ k = (x₀ + sx * k, y₀ + sy * (progress dx dy k).2) := by
  have hprogress := inStrip_progress h.pos h.nonneg h.le k
  have hbetween := ((along_progress h.pos.le h.nonneg k).between h.pos.le h.nonneg
    (Int.natCast_nonneg k) (hk.trans (le_max_left _ _))).1.2
  simp only [pixelAfter, stateAfter, Walk.standing, natAbs_eq h.sign_x h.width h.pos.le,
    natAbs_eq h.sign_y h.height h.nonneg, direction_eq h.sign_x h.width h.pos, hprogress.1]
  congr 2
  rcases h.nonneg.eq_or_lt with hzero | hpos
  · -- Of a line that keeps to one row only one direction matters.
    rw [show (progress dx dy k).2 = 0 by omega, Int.mul_zero, Int.mul_zero]
  · rw [direction_eq h.sign_y h.height hpos]

theorem Wide.steps_eq (h : Wide x₀ y₀ x₁ y₁ sx sy dx dy) : (steps x₀ y₀ x₁ y₁ : Int) = dx := by
  have hx := natAbs_eq h.sign_x h.width h.pos.le
  have hy := natAbs_eq h.sign_y h.height h.nonneg
  have hle := h.le
  rw [steps]
  omega

theorem Wide.mem_pixels_iff (h : Wide x₀ y₀ x₁ y₁ sx sy dx dy) : p ∈ pixels x₀ y₀ x₁ y₁ ↔
    (0 ≤ sx * (p.1 - x₀) ∧ sx * (p.1 - x₀) ≤ dx) ∧
      InStrip dx dy (sx * (p.1 - x₀)) (sy * (p.2 - y₀)) := by
  have hsteps := h.steps_eq
  rw [pixels_eq, List.mem_map]
  constructor
  · rintro ⟨k, hk, rfl⟩
    rw [List.mem_range] at hk
    have hstrip := (inStrip_progress h.pos h.nonneg h.le k).2
    rw [h.pixelAfter_eq (by omega), add_sub_cancel_left, add_sub_cancel_left,
      mul_sign_mul h.sign_x, mul_sign_mul h.sign_y]
    exact ⟨by omega, hstrip⟩
  · rintro ⟨⟨hlow, hhigh⟩, hstrip⟩
    obtain ⟨k, hk⟩ := Int.eq_ofNat_of_zero_le hlow
    rw [hk] at hhigh hstrip
    refine ⟨k, List.mem_range.2 (by omega), ?_⟩
    have hrow := (inStrip_progress h.pos h.nonneg h.le k).2.unique h.pos hstrip
    rw [h.pixelAfter_eq hhigh, hrow, ← hk, mul_sign_mul h.sign_x, mul_sign_mul h.sign_y,
      add_sub_cancel, add_sub_cancel]

end Signed

section Part

variable {x₀ y₀ x₁ y₁ sx sy dx dy : Int} {c d p : Int × Int}

def OnLine (x₀ y₀ x₁ y₁ : Int) (p : Int × Int) : Prop :=
  (p.2 - y₀) * (x₁ - x₀) = (p.1 - x₀) * (y₁ - y₀)

theorem pixels_self (x y : Int) : pixels x y x y = [(x, y)] := by
  simp [pixels, Walk.pixels]

theorem Wide.onLine_iff (h : Wide x₀ y₀ x₁ y₁ sx sy dx dy) : OnLine x₀ y₀ x₁ y₁ c ↔
    sy * (c.2 - y₀) * dx = sx * (c.1 - x₀) * dy := by
  rw [OnLine, ← h.width, ← h.height]
  rcases h.sign_x with rfl | rfl <;> rcases h.sign_y with rfl | rfl <;>
    constructor <;> intro heq <;> linarith

theorem sign_mul_cancel {s m n : Int} (hs : s = 1 ∨ s = -1) : s * m = s * n ↔ m = n := by
  rcases hs with rfl | rfl <;> omega

theorem Wide.eq_of_inStrip (h : Wide x₀ y₀ x₁ y₁ sx sy dx dy)
    (hc : InStrip dx dy (sx * (c.1 - x₀)) (sy * (c.2 - y₀)))
    (hd : InStrip dx dy (sx * (d.1 - x₀)) (sy * (d.2 - y₀)))
    (heq : sx * (c.1 - x₀) = sx * (d.1 - x₀)) : c = d := by
  have hrow := (heq ▸ hc).unique h.pos hd
  rw [sign_mul_cancel h.sign_x] at heq
  rw [sign_mul_cancel h.sign_y] at hrow
  exact Prod.ext (by omega) (by omega)

theorem Wide.part (h : Wide x₀ y₀ x₁ y₁ sx sy dx dy) (hc : OnLine x₀ y₀ x₁ y₁ c)
    (hd : OnLine x₀ y₀ x₁ y₁ d) (hlt : sx * (c.1 - x₀) < sx * (d.1 - x₀)) :
    Wide c.1 c.2 d.1 d.2 sx sy (sx * (d.1 - c.1)) (sy * (d.2 - c.2)) ∧
      sy * (d.2 - c.2) * dx = sx * (d.1 - c.1) * dy := by
  rw [h.onLine_iff] at hc hd
  have hscale : sy * (d.2 - c.2) * dx = sx * (d.1 - c.1) * dy := by linear_combination hd - hc
  have hpos : 0 < sx * (d.1 - c.1) := by linarith
  have hdx := h.pos
  have hdy := h.nonneg
  have hle := h.le
  refine ⟨⟨h.sign_x, h.sign_y, rfl, rfl, hpos, ?_, ?_⟩, hscale⟩
  · refine Int.le_of_mul_le_mul_right ?_ hdx
    rw [hscale, Int.zero_mul]
    exact Int.mul_nonneg hpos.le hdy
  · refine Int.le_of_mul_le_mul_right ?_ hdx
    rw [hscale]
    exact Int.mul_le_mul_of_nonneg_left hle hpos.le

theorem Wide.mem_pixels_part_iff (h : Wide x₀ y₀ x₁ y₁ sx sy dx dy)
    (hc : OnLine x₀ y₀ x₁ y₁ c) (hd : OnLine x₀ y₀ x₁ y₁ d) (hc' : 0 ≤ sx * (c.1 - x₀))
    (hd' : sx * (d.1 - x₀) ≤ dx) (hle : sx * (c.1 - x₀) ≤ sx * (d.1 - x₀)) :
    p ∈ pixels c.1 c.2 d.1 d.2 ↔ p ∈ pixels x₀ y₀ x₁ y₁ ∧
      sx * (c.1 - x₀) ≤ sx * (p.1 - x₀) ∧ sx * (p.1 - x₀) ≤ sx * (d.1 - x₀) := by
  have hon := h.onLine_iff.1 hc
  have hx : sx * (p.1 - c.1) = sx * (p.1 - x₀) - sx * (c.1 - x₀) := by ring
  have hy : sy * (p.2 - c.2) = sy * (p.2 - y₀) - sy * (c.2 - y₀) := by ring
  rcases hle.eq_or_lt with heq | hlt
  · -- A single pixel, the only one of the strip in its column.
    have hstrip := inStrip_of_eq h.pos hon
    have hcd := h.eq_of_inStrip hstrip (inStrip_of_eq h.pos (h.onLine_iff.1 hd)) heq
    rw [← hcd, pixels_self, List.mem_singleton, h.mem_pixels_iff]
    constructor
    · rintro rfl
      exact ⟨⟨⟨hc', heq ▸ hd'⟩, hstrip⟩, le_rfl, le_rfl⟩
    · rintro ⟨⟨-, hstrip'⟩, hlow, hhigh⟩
      exact h.eq_of_inStrip hstrip' hstrip (Int.le_antisymm hhigh hlow)
  · obtain ⟨hpart, hscale⟩ := h.part hc hd hlt
    have hwidth : sx * (d.1 - c.1) = sx * (d.1 - x₀) - sx * (c.1 - x₀) := by ring
    rw [hpart.mem_pixels_iff, inStrip_scale h.pos hpart.pos hscale, h.mem_pixels_iff, hx, hy,
      inStrip_shift hon, hwidth]
    constructor
    · rintro ⟨⟨hlow, hhigh⟩, hstrip⟩
      exact ⟨⟨⟨by omega, by omega⟩, hstrip⟩, by omega, by omega⟩
    · rintro ⟨⟨-, hstrip⟩, hlow, hhigh⟩
      exact ⟨⟨by omega, by omega⟩, hstrip⟩

end Part

section Columns

variable {x₀ y₀ x₁ y₁ n : Int}

theorem exists_step_eq {f : Nat → Int} (hzero : f 0 = 0) (hstep : ∀ k, f (k + 1) ≤ f k + 1)
    {last : Nat} (hn : 0 ≤ n) (hlast : n ≤ f last) : ∃ k ≤ last, f k = n := by
  induction last with
  | zero => exact ⟨0, le_rfl, by omega⟩
  | succ last ih =>
    have hnext := hstep last
    rcases hlast.eq_or_lt with heq | hlt
    · exact ⟨last + 1, le_rfl, heq.symm⟩
    · obtain ⟨k, hk, heq⟩ := ih (by omega)
      exact ⟨k, Nat.le_succ_of_le hk, heq⟩

theorem exists_pixel_of_column (hlow : min x₀ x₁ ≤ n) (hhigh : n ≤ max x₀ x₁) :
    ∃ p ∈ pixels x₀ y₀ x₁ y₁, p.1 = n := by
  obtain ⟨hend, -⟩ := ((along x₀ y₀ x₁ y₁ (steps x₀ y₀ x₁ y₁)).between (by omega) (by omega)
    (by omega) (by rw [steps]; omega)).2.1 (by rw [steps]; omega)
  obtain ⟨k, hk, heq⟩ := exists_step_eq
    (f := fun k => (progress (x₁ - x₀).natAbs (y₁ - y₀).natAbs k).1)
    (n := direction x₀ x₁ * (n - x₀)) rfl (fun k => (advance_between _ _ _ _).1.2)
    (by rw [direction]; split_ifs <;> omega) (by rw [hend, direction]; split_ifs <;> omega)
  rw [pixels_eq]
  refine ⟨_, List.mem_map_of_mem (List.mem_range.2 (Nat.lt_succ_of_le hk)), ?_⟩
  have hsign : direction x₀ x₁ = 1 ∨ direction x₀ x₁ = -1 := by
    rw [direction]
    split_ifs <;> simp
  simp only [pixelAfter, stateAfter, Walk.standing] at heq ⊢
  rw [heq, mul_sign_mul hsign]
  omega

end Columns

end PatternScript.Segment
