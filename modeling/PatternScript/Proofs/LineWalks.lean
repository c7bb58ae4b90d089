import Mathlib.Data.List.Range
import Mathlib.Tactic.Ring
import PatternScript.Raster.Segment

/-!
# The walk along a line

The error of a walk is a function of how far it has come along both sides: it holds the
distance from the ideal line, taken times the longer side. Each step goes on along the longer
side and brings that distance back to half of it, so the walk ends at its last point, after as
many steps as the longer side has, whatever bound is set on their number.
-/
namespace PatternScript.Segment

/-- How far a walk over `dx` and `dy` has come after `k` steps: `x` along the one side and
`y` along the other, within half a pixel of the ideal line. -/
structure Along (dx dy k x y : Int) : Prop where
  wide : dy ≤ dx → x = k
  high : dx ≤ dy → y = k
  above : 2 * (y * dx - x * dy) ≤ max dx dy
  below : -max dx dy ≤ 2 * (y * dx - x * dy)

def advance (dx dy x y : Int) : Int × Int :=
  let twice := 2 * (dx * (y + 1) - dy * (x + 1))
  (if twice ≥ -dy then x + 1 else x, if twice ≤ dx then y + 1 else y)

namespace Along

variable {dx dy k x y : Int}

theorem start (hdx : 0 ≤ dx) (hdy : 0 ≤ dy) : Along dx dy 0 0 0 :=
  ⟨fun _ => rfl, fun _ => rfl, by omega, by omega⟩

theorem swap (h : Along dx dy k x y) : Along dy dx k y x := by
  have hneg : x * dy - y * dx = -(y * dx - x * dy) := by ring
  have habove := h.above
  have hbelow := h.below
  refine ⟨h.high, h.wide, ?_, ?_⟩
  · rw [hneg]
    omega
  · rw [hneg]
    omega

theorem short_side (h : Along dx dy k x y) (hdy : 0 ≤ dy) (hle : dy ≤ dx) (hpos : 0 < dx)
    (hk : 0 ≤ k) (hk' : k ≤ dx) : (0 ≤ y ∧ y ≤ dy) ∧ (k = dx → y = dy) := by
  have hx := h.wide hle
  have habove := h.above
  have hbelow := h.below
  have hlow : 0 ≤ x * dy := Int.mul_nonneg (by omega) hdy
  have hup : x * dy ≤ dx * dy := Int.mul_le_mul_of_nonneg_right (by omega) hdy
  have hnext : (dy + 1) * dx = dx * dy + dx := by ring
  have hprev : (dy - 1) * dx = dx * dy - dx := by ring
  have hlow' : 0 ≤ y := by
    by_contra hneg
    have := Int.mul_le_mul_of_nonneg_right (show y ≤ -1 by omega) (show 0 ≤ dx by omega)
    omega
  have hup' : y ≤ dy := by
    by_contra hgt
    have := Int.mul_le_mul_of_nonneg_right (show dy + 1 ≤ y by omega) (show 0 ≤ dx by omega)
    omega
  refine ⟨⟨hlow', hup'⟩, fun hend => ?_⟩
  by_contra hne
  have := Int.mul_le_mul_of_nonneg_right (show y ≤ dy - 1 by omega) (show 0 ≤ dx by omega)
  rw [hx, hend] at hbelow
  omega

theorem between (h : Along dx dy k x y) (hdx : 0 ≤ dx) (hdy : 0 ≤ dy) (hk : 0 ≤ k)
    (hk' : k ≤ max dx dy) :
    ((0 ≤ x ∧ x ≤ dx) ∧ (0 ≤ y ∧ y ≤ dy)) ∧ (k = max dx dy ↔ x = dx ∧ y = dy) := by
  have hwide := h.wide
  have hhigh := h.high
  rcases Int.le_total dy dx with hle | hle
  · by_cases hpos : 0 < dx
    · have := h.short_side hdy hle hpos hk (by omega)
      omega
    · omega
  · by_cases hpos : 0 < dy
    · have := h.swap.short_side hdx hle hpos hk (by omega)
      omega
    · omega

theorem next (h : Along dx dy k x y) (hdx : 0 ≤ dx) (hdy : 0 ≤ dy) :
    Along dx dy (k + 1) (advance dx dy x y).1 (advance dx dy x y).2 := by
  have hwide := h.wide
  have hhigh := h.high
  have habove := h.above
  have hbelow := h.below
  have hx : (x + 1) * dy = x * dy + dy := by ring
  have hy : (y + 1) * dx = y * dx + dx := by ring
  have herror : dx * (y + 1) - dy * (x + 1) = y * dx - x * dy + dx - dy := by ring
  rw [advance, herror]
  dsimp only
  refine ⟨?_, ?_, ?_, ?_⟩
  all_goals split_ifs <;> omega

end Along

theorem advance_between (dx dy x y : Int) :
    (x ≤ (advance dx dy x y).1 ∧ (advance dx dy x y).1 ≤ x + 1) ∧
      (y ≤ (advance dx dy x y).2 ∧ (advance dx dy x y).2 ≤ y + 1) := by
  unfold advance
  dsimp only
  split_ifs <;> omega

def progress (dx dy : Int) : Nat → Int × Int
  | 0 => (0, 0)
  | k + 1 => advance dx dy (progress dx dy k).1 (progress dx dy k).2

theorem along_progress {dx dy : Int} (hdx : 0 ≤ dx) (hdy : 0 ≤ dy) (k : Nat) :
    Along dx dy k (progress dx dy k).1 (progress dx dy k).2 := by
  induction k with
  | zero => exact .start hdx hdy
  | succ k ih =>
    rw [Nat.cast_succ]
    exact ih.next hdx hdy

def Walk.standing (x₀ y₀ dx dy sx sy x y : Int) : Walk :=
  ⟨x₀ + sx * x, y₀ + sy * y, dx * (y + 1) - dy * (x + 1)⟩

theorem Walk.step_standing (x₀ y₀ dx dy sx sy x y : Int) :
    (standing x₀ y₀ dx dy sx sy x y).step dx (-dy) sx sy =
      standing x₀ y₀ dx dy sx sy (advance dx dy x y).1 (advance dx dy x y).2 := by
  unfold step advance standing
  dsimp only
  split_ifs <;> rw [Walk.mk.injEq] <;> refine ⟨?_, ?_, ?_⟩ <;> ring

def direction (a b : Int) : Int := if a < b then 1 else -1

theorem direction_mul_eq_iff {a b n : Int} : a + direction a b * n = b ↔ n = (b - a).natAbs := by
  rw [direction]
  split_ifs <;> omega

section Line

variable (x₀ y₀ x₁ y₁ : Int)

def steps : Nat := max (x₁ - x₀).natAbs (y₁ - y₀).natAbs

def stateAfter (k : Nat) : Walk :=
  let p := progress (x₁ - x₀).natAbs (y₁ - y₀).natAbs k
  .standing x₀ y₀ (x₁ - x₀).natAbs (y₁ - y₀).natAbs (direction x₀ x₁) (direction y₀ y₁) p.1 p.2

def pixelAfter (k : Nat) : Int × Int :=
  ((stateAfter x₀ y₀ x₁ y₁ k).x, (stateAfter x₀ y₀ x₁ y₁ k).y)

/-- The walk itself, on which only `fuel` sets a bound. -/
def walkFrom (w : Walk) (fuel : Nat) : List (Int × Int) :=
  w.pixels x₁ y₁ (x₁ - x₀).natAbs (-(y₁ - y₀).natAbs) (direction x₀ x₁) (direction y₀ y₁) fuel

theorem along (k : Nat) : Along (x₁ - x₀).natAbs (y₁ - y₀).natAbs k
    (progress (x₁ - x₀).natAbs (y₁ - y₀).natAbs k).1
    (progress (x₁ - x₀).natAbs (y₁ - y₀).natAbs k).2 :=
  along_progress (by omega) (by omega) k

theorem stateAfter_zero : stateAfter x₀ y₀ x₁ y₁ 0 =
    ⟨x₀, y₀, (x₁ - x₀).natAbs - (y₁ - y₀).natAbs⟩ := by
  simp [stateAfter, progress, Walk.standing]

variable {x₀ y₀ x₁ y₁}

theorem stops_iff {k : Nat} (hk : k ≤ steps x₀ y₀ x₁ y₁) :
    (stateAfter x₀ y₀ x₁ y₁ k).x = x₁ ∧ (stateAfter x₀ y₀ x₁ y₁ k).y = y₁ ↔
      k = steps x₀ y₀ x₁ y₁ := by
  have hend := ((along x₀ y₀ x₁ y₁ k).between (by omega)
    (by omega) (by omega) (by rw [steps] at hk; omega)).2
  simp only [stateAfter, Walk.standing, direction_mul_eq_iff]
  rw [← hend, steps]
  omega

theorem walkFrom_stateAfter {k left fuel : Nat} (hk : k + left = steps x₀ y₀ x₁ y₁)
    (hfuel : left < fuel) :
    walkFrom x₀ y₀ x₁ y₁ (stateAfter x₀ y₀ x₁ y₁ k) fuel =
      (List.range' k (left + 1)).map (pixelAfter x₀ y₀ x₁ y₁) := by
  induction left generalizing k fuel with
  | zero =>
    obtain ⟨fuel, rfl⟩ := Nat.exists_eq_add_one.2 hfuel
    have hle : k ≤ steps x₀ y₀ x₁ y₁ := by omega
    rw [walkFrom, Walk.pixels, if_pos ((stops_iff hle).2 hk)]
    rfl
  | succ left ih =>
    obtain ⟨fuel, rfl⟩ := Nat.exists_eq_add_one.2 (Nat.zero_lt_of_lt hfuel)
    have hle : k ≤ steps x₀ y₀ x₁ y₁ := by omega
    have hgo : ¬((stateAfter x₀ y₀ x₁ y₁ k).x = x₁ ∧ (stateAfter x₀ y₀ x₁ y₁ k).y = y₁) :=
      mt (stops_iff hle).1 (by omega)
    have hnext : (stateAfter x₀ y₀ x₁ y₁ k).step (x₁ - x₀).natAbs (-(y₁ - y₀).natAbs)
        (direction x₀ x₁) (direction y₀ y₁) = stateAfter x₀ y₀ x₁ y₁ (k + 1) :=
      Walk.step_standing ..
    have hrest := ih (show k + 1 + left = steps x₀ y₀ x₁ y₁ by omega) (show left < fuel by omega)
    rw [walkFrom, Walk.pixels, if_neg hgo, hnext, List.range'_succ, List.map_cons, ← hrest]
    rfl

theorem walkFrom_start {fuel : Nat} (hfuel : steps x₀ y₀ x₁ y₁ < fuel) :
    walkFrom x₀ y₀ x₁ y₁ ⟨x₀, y₀, (x₁ - x₀).natAbs - (y₁ - y₀).natAbs⟩ fuel =
      (List.range (steps x₀ y₀ x₁ y₁ + 1)).map (pixelAfter x₀ y₀ x₁ y₁) := by
  rw [← stateAfter_zero, List.range_eq_range']
  exact walkFrom_stateAfter (by omega) hfuel

theorem pixels_eq : pixels x₀ y₀ x₁ y₁ =
    (List.range (steps x₀ y₀ x₁ y₁ + 1)).map (pixelAfter x₀ y₀ x₁ y₁) :=
  walkFrom_start (by rw [steps]; omega)

/-- A step from `p` to `q` goes on by one pixel along the longer side and by at most one along
the other. -/
def Follows (dx dy : Nat) (p q : Int × Int) : Prop :=
  ((q.1 - p.1).natAbs ≤ 1 ∧ (q.2 - p.2).natAbs ≤ 1) ∧
    (dy ≤ dx → (q.1 - p.1).natAbs = 1) ∧ (dx ≤ dy → (q.2 - p.2).natAbs = 1)

theorem natAbs_direction_mul (a b n : Int) : (direction a b * n).natAbs = n.natAbs := by
  rw [direction]
  split_ifs <;> omega

/-- The pixel is within the box of the two ends and within half a pixel of the line. -/
def Near (x₀ y₀ x₁ y₁ : Int) (p : Int × Int) : Prop :=
  ((min x₀ x₁ ≤ p.1 ∧ p.1 ≤ max x₀ x₁) ∧ (min y₀ y₁ ≤ p.2 ∧ p.2 ≤ max y₀ y₁)) ∧
    2 * ((p.2 - y₀) * (x₁ - x₀) - (p.1 - x₀) * (y₁ - y₀)).natAbs ≤
      max (x₁ - x₀).natAbs (y₁ - y₀).natAbs

theorem direction_mul_natAbs (a b : Int) : direction a b * ((b - a).natAbs : Int) = b - a := by
  rw [direction]
  split_ifs <;> omega

theorem direction_mul_between {a b n : Int} (hn : 0 ≤ n ∧ n ≤ (b - a).natAbs) :
    min a b ≤ a + direction a b * n ∧ a + direction a b * n ≤ max a b := by
  rw [direction]
  split_ifs <;> omega

theorem near_pixelAfter {k : Nat} (hk : k ≤ steps x₀ y₀ x₁ y₁) :
    Near x₀ y₀ x₁ y₁ (pixelAfter x₀ y₀ x₁ y₁ k) := by
  have hnow := along x₀ y₀ x₁ y₁ k
  have hbox := (hnow.between (by omega) (by omega) (by omega) (by rw [steps] at hk; omega)).1
  refine ⟨⟨direction_mul_between hbox.1, direction_mul_between hbox.2⟩, ?_⟩
  have habove := hnow.above
  have hbelow := hnow.below
  simp only [pixelAfter, stateAfter, Walk.standing, add_sub_cancel_left]
  generalize (progress _ _ k).1 = x at *
  generalize (progress _ _ k).2 = y at *
  -- Turning both sides the way of the walk changes the sign of the distance at most.
  have hturned : direction y₀ y₁ * y * (x₁ - x₀) - direction x₀ x₁ * x * (y₁ - y₀) =
      direction x₀ x₁ * (direction y₀ y₁ * (y * (x₁ - x₀).natAbs - x * (y₁ - y₀).natAbs)) := by
    rw [← direction_mul_natAbs x₀ x₁, ← direction_mul_natAbs y₀ y₁]
    simp only [natAbs_direction_mul, Int.natAbs_natCast]
    ring
  rw [hturned, natAbs_direction_mul, natAbs_direction_mul]
  omega

theorem near_of_mem_pixels {p : Int × Int} (hp : p ∈ pixels x₀ y₀ x₁ y₁) :
    Near x₀ y₀ x₁ y₁ p := by
  rw [pixels_eq] at hp
  obtain ⟨k, hk, rfl⟩ := List.mem_map.1 hp
  exact near_pixelAfter (Nat.lt_succ_iff.1 (List.mem_range.1 hk))

end Line

end PatternScript.Segment
