import PatternScript.Proofs.Culling.Painting
import PatternScript.Proofs.Doubles.Integers
import PatternScript.Proofs.Plane.Accuracy

/-!
# Sampled pixels

A sampled shape gives a pixel of the clip the color of the logical position of its center.
Centers are exact, and an inverse map takes them back nearly exactly.
-/
namespace PatternScript

open Number

namespace Mark

variable {width height x y : Int32} {marks : List Mark} {k : Color}

theorem exists_of_topColor (h : topColor width height x y marks = some k) :
    ∃ m ∈ marks, (x, y) ∈ m.points width height ∧ m.color = k := by
  induction marks with
  | nil => cases h
  | cons m marks ih =>
    rw [topColor, Option.or_eq_some_iff] at h
    rcases h with hlater | ⟨-, hfirst⟩
    · obtain ⟨m', hm', hpaint⟩ := ih hlater
      exact ⟨m', List.mem_cons_of_mem m hm', hpaint⟩
    · split_ifs at hfirst with hpoint
      rw [Option.some.injEq] at hfirst
      exact ⟨m, List.mem_cons_self, hpoint, hfirst⟩

theorem topColor_eq_some (hpaint : Paint width height x y marks)
    (hcolor : ∀ m ∈ marks, (x, y) ∈ m.points width height → m.color = k) :
    topColor width height x y marks = some k := by
  cases htop : topColor width height x y marks with
  | none => exact absurd hpaint (topColor_eq_none_iff.1 htop)
  | some k' =>
    obtain ⟨m, hm, hpoint, rfl⟩ := exists_of_topColor htop
    exact congrArg some (hcolor m hm hpoint)

def SamePixels (width height : Int32) (marks marks' : List Mark) : Prop :=
  ∀ x y, (Rect.ofSize width height).contains x y = true →
    topColor width height x y marks = topColor width height x y marks'

theorem samePixels_of_color {marks' : List Mark} (hcolor : ∀ m ∈ marks, m.color = k)
    (hcolor' : ∀ m ∈ marks', m.color = k)
    (h : ∀ x y, (Rect.ofSize width height).contains x y = true →
      (Paint width height x y marks ↔ Paint width height x y marks')) :
    SamePixels width height marks marks' := by
  intro x y hon
  by_cases hpaint : Paint width height x y marks
  · rw [topColor_eq_some hpaint fun m hm _ => hcolor m hm,
      topColor_eq_some ((h x y hon).1 hpaint) fun m hm _ => hcolor' m hm]
  · rw [topColor_eq_none_iff.2 hpaint,
      topColor_eq_none_iff.2 (mt (h x y hon).2 hpaint)]

end Mark

namespace Item

variable {width height x y : Int32} {clip : Rect} {shade : Point → Option Color} {item : Item}

theorem mem_sample {m : Mark} : m ∈ item.sample clip shade ↔ ∃ x y, clip.contains x y = true ∧
    ∃ k, shade (item.logicalCenter x y) = some k ∧ m = .pixel x y k := by
  rw [sample, List.mem_filterMap]
  constructor
  · rintro ⟨⟨x, y⟩, hpoint, hm⟩
    have hin := Rect.mem_points.1 hpoint
    dsimp only at hm
    rw [Option.map_eq_some_iff] at hm
    obtain ⟨k, hk, rfl⟩ := hm
    exact ⟨x, y, hin, k, hk, rfl⟩
  · rintro ⟨x, y, hin, k, hk, rfl⟩
    refine ⟨(x, y), Rect.mem_points.2 hin, ?_⟩
    dsimp only
    rw [hk, Option.map_some]

theorem paint_sample_iff : Mark.Paint width height x y (item.sample clip shade) ↔
    clip.contains x y = true ∧ (shade (item.logicalCenter x y)).isSome = true := by
  constructor
  · rintro ⟨m, hm, hpoint⟩
    obtain ⟨x', y', hin, k, hk, rfl⟩ := mem_sample.1 hm
    obtain ⟨rfl, rfl⟩ := Prod.mk.inj (List.mem_singleton.1 hpoint)
    exact ⟨hin, by rw [hk, Option.isSome_some]⟩
  · rintro ⟨hin, hshade⟩
    obtain ⟨k, hk⟩ := Option.isSome_iff_exists.1 hshade
    exact ⟨.pixel x y k, mem_sample.2 ⟨x, y, hin, k, hk, rfl⟩, List.mem_singleton_self _⟩

theorem topColor_sample : Mark.topColor width height x y (item.sample clip shade) =
    if clip.contains x y = true then shade (item.logicalCenter x y) else none := by
  cases hin : clip.contains x y with
  | false =>
    rw [if_neg Bool.false_ne_true, Mark.topColor_eq_none_iff, paint_sample_iff, hin]
    exact fun h => Bool.false_ne_true h.1
  | true =>
    rw [if_pos rfl]
    cases hk : shade (item.logicalCenter x y) with
    | none =>
      rw [Mark.topColor_eq_none_iff, paint_sample_iff, hk]
      exact fun h => Bool.false_ne_true h.2
    | some k =>
      refine Mark.topColor_eq_some (paint_sample_iff.2 ⟨hin, by rw [hk, Option.isSome_some]⟩) ?_
      intro m hm hpoint
      obtain ⟨x', y', -, k', hk', rfl⟩ := mem_sample.1 hm
      obtain ⟨rfl, rfl⟩ := Prod.mk.inj (List.mem_singleton.1 hpoint)
      exact Option.some.inj (hk'.symm.trans hk)

theorem color_of_mem_sample {k : Color} (hk : ∀ p k', shade p = some k' → k' = k) :
    ∀ m ∈ item.sample clip shade, m.color = k := by
  intro m hm
  obtain ⟨x, y, -, k', hk', rfl⟩ := mem_sample.1 hm
  exact hk _ _ hk'

theorem abs_exactCenter_le (n : Int32) : |(n.toInt : ℚ) + 1 / 2| ≤ 2 ^ 31 := by
  have hbound := Words.bounds n
  have hlow : (-2147483648 : ℚ) ≤ n.toInt := by exact_mod_cast hbound.1
  have hhigh : (n.toInt : ℚ) ≤ 2147483648 - 1 := by exact_mod_cast Int.le_sub_one_of_lt hbound.2
  rw [abs_le]
  constructor <;> linarith

theorem isFinite_and_value_center (n : Int32) :
    (ofInt32 n + 0.5).isFinite = true ∧ value (ofInt32 n + 0.5) = n.toInt + 1 / 2 := by
  have hbound := Words.bounds n
  have hodd : |2 * n.toInt + 1| < 2 ^ 53 := by
    rw [abs_lt]
    omega
  obtain ⟨x, hx, hvalue⟩ := exists_value (e := -1) hodd (by decide) (by decide)
  have hexact : value x = n.toInt + 1 / 2 := by
    rw [hvalue]
    push_cast
    norm_num
    ring
  have hrounded := rounded_add (isFinite_ofInt32 n) isFinite_half
  rw [value_ofInt32, value_half] at hrounded
  have hnear := hrounded.nearest (abs_lt_limit ((abs_exactCenter_le n).trans (by norm_num)))
  exact ⟨hnear.isFinite, hnear.eq_of_eq hx hexact⟩

def unscaledCenter (item : Item) (x y : Int32) : Point :=
  item.inverse.apply ⟨ofInt32 x + 0.5, ofInt32 y + 0.5⟩

theorem logicalCenter_eq (item : Item) (x y : Int32) : item.logicalCenter x y =
    ⟨(item.unscaledCenter x y).x / item.scale, (item.unscaledCenter x y).y / item.scale⟩ :=
  rfl

def exactCenter (x y : Int32) : ℚ × ℚ := (x.toInt + 1 / 2, y.toInt + 1 / 2)

theorem approx_unscaledCenter {L : ℚ} (h : item.matrix.Regular L) (hL : 2 ^ 31 ≤ L)
    (hL' : L ≤ 2 ^ 40) (hi : item.matrix.invert? = some item.inverse) (x y : Int32) :
    Approx (item.unscaledCenter x y).x (item.matrix.preimage (exactCenter x y)).1 (L / 2 ^ 43) ∧
      Approx (item.unscaledCenter x y).y (item.matrix.preimage (exactCenter x y)).2
        (L / 2 ^ 43) := by
  have habs (n : Int32) : |(n.toInt : ℚ) + 1 / 2| ≤ L := (abs_exactCenter_le n).trans hL
  obtain ⟨hx, hx'⟩ := isFinite_and_value_center x
  obtain ⟨hy, hy'⟩ := isFinite_and_value_center y
  have hnear := h.approx_preimage (by linarith) hL' hi
    (p := ⟨ofInt32 x + 0.5, ofInt32 y + 0.5⟩) hx hy (by rw [hx']; exact habs x)
    (by rw [hy']; exact habs y)
  dsimp only at hnear
  rw [hx', hy'] at hnear
  exact hnear

end Item

end PatternScript
