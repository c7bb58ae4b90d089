import PatternScript.Proofs.Lines.Cuts

/-!
# What a cut line paints

A line is painted as the line between its rounded cuts. If it passes between the borders of the
window at all it is not cut away, so it has its pixels on the surface, some of them perhaps one
pixel aside. If it crosses the borders in whole points only, as it does when it stays within the
window or goes straight along a side or a diagonal, it has just these pixels.
-/
namespace PatternScript

open Number

namespace Segment

variable {s : Segment} {a b : Point} {x₀ y₀ x₁ y₁ w h : Int} {width height x y : Int32}
  {c d q : Int × Int} {k : Color}

theorem Joins.clip?_eq (hs : s.Joins x₀ y₀ x₁ y₁) (window : Window) : s.clip? window =
    ((s.edges window).foldlM cutEdge? (0.0, 1.0)).map fun kept =>
      ⟨s.partway kept.1, s.partway kept.2⟩ := by
  simp only [clip?, hs.start_x.isFinite, hs.start_y.isFinite, hs.stop_x.isFinite,
    hs.stop_y.isFinite, Bool.and_self, Bool.not_true, if_neg Bool.false_ne_true]
  exact (Option.map_eq_bind ..).symm

theorem exists_inside (hq : Near x₀ y₀ x₁ y₁ q) (hon : OnSurface w h q) :
    ∃ t : ℚ, 0 ≤ t ∧ t ≤ 1 ∧ Inside x₀ y₀ x₁ y₁ w h t := by
  by_cases hpoint : x₀ = x₁ ∧ y₀ = y₁
  · obtain ⟨⟨hx, hy⟩, -⟩ := hq
    obtain ⟨⟨hx₀, hx₁⟩, hy₀, hy₁⟩ := hon
    have hstart : (-1 < x₀ ∧ x₀ < w) ∧ -1 < y₀ ∧ y₀ < h := by omega
    refine ⟨0, le_rfl, zero_le_one, ?_, ?_⟩ <;> rw [zero_mul, add_zero]
    · exact_mod_cast hstart.1
    · exact_mod_cast hstart.2
  · rcases le_total |y₁ - y₀| |x₁ - x₀| with hle | hle
    · have hne := ne_of_not_point hpoint hle
      exact ⟨_, (partOf_between hne hq.1.1).1, (partOf_between hne hq.1.1).2,
        inside_partOf hne hle hq hon⟩
    · have hne := ne_of_not_point (hpoint ∘ And.symm) hle
      exact ⟨_, (partOf_between hne hq.1.2).1, (partOf_between hne hq.1.2).2,
        (inside_partOf hne hle hq.swap hon.symm).swap⟩

theorem exists_words (hc : OnWindow width.toInt height.toInt c)
    (hd : OnWindow width.toInt height.toInt d) (hq : q ∈ pixels c.1 c.2 d.1 d.2) :
    (Int32.ofInt q.1).toInt = q.1 ∧ (Int32.ofInt q.2).toInt = q.2 := by
  have hwidth := (Words.bounds width).2
  have hheight := (Words.bounds height).2
  obtain ⟨⟨hx₀, hx₁⟩, hy₀, hy₁⟩ := hc
  obtain ⟨⟨hx₂, hx₃⟩, hy₂, hy₃⟩ := hd
  obtain ⟨⟨hx, hx'⟩, hy, hy'⟩ := (near_of_mem_pixels hq).1
  exact ⟨Words.toInt_ofInt_of_fits (by omega) (by omega),
    Words.toInt_ofInt_of_fits (by omega) (by omega)⟩

theorem mem_pixelsOn_iff (hclip : s.clip? (.ofSize width height) = some ⟨a, b⟩)
    (ha : OnWindow width.toInt height.toInt (roundedAt a))
    (hb : OnWindow width.toInt height.toInt (roundedAt b)) :
    (x, y) ∈ s.pixelsOn width height ↔ (x.toInt, y.toInt) ∈
      pixels (roundedAt a).1 (roundedAt a).2 (roundedAt b).1 (roundedAt b).2 := by
  rw [pixelsOn, hclip, List.mem_map]
  constructor
  · rintro ⟨q, hq, heq⟩
    obtain ⟨hx, hy⟩ := exists_words ha hb hq
    obtain ⟨rfl, rfl⟩ := Prod.mk.inj heq
    rwa [hx, hy]
  · intro hp
    refine ⟨_, hp, ?_⟩
    rw [Int32.ofInt_toInt, Int32.ofInt_toInt]

theorem Joins.resembles (hs : s.Joins x₀ y₀ x₁ y₁) (width height : Int32) :
    (∃ c d, Resembles x₀ y₀ x₁ y₁ width.toInt height.toInt c d ∧
      OnWindow width.toInt height.toInt c ∧ OnWindow width.toInt height.toInt d ∧
      ∀ x y, (x, y) ∈ s.pixelsOn width height ↔ (x.toInt, y.toInt) ∈ pixels c.1 c.2 d.1 d.2) ∨
    (s.pixelsOn width height = [] ∧
      ∀ q ∈ pixels x₀ y₀ x₁ y₁, ¬ OnSurface width.toInt height.toInt q) := by
  have hedges := hs.forall₂_edges width height
  have hclip := hs.clip?_eq (.ofSize width height)
  cases hfold : (s.edges (.ofSize width height)).foldlM cutEdge? (0.0, 1.0) with
  | some kept =>
    have hkept := kept_all.foldlM hedges hfold
    rw [List.nil_append] at hkept
    obtain ⟨t₀, t₁, hcut⟩ := hs.cutTo hkept
    have hfirst := hs.onWindow hkept hkept.first le_rfl hkept.le
    have hlast := hs.onWindow hkept hkept.last hkept.le le_rfl
    rw [hfold, Option.map_some] at hclip
    exact .inl ⟨roundedAt (s.partway kept.1), roundedAt (s.partway kept.2), hcut.resembles,
      hfirst, hlast, fun x y => mem_pixelsOn_iff hclip hfirst hlast⟩
  | none =>
    rw [hfold, Option.map_none] at hclip
    refine .inr ⟨?_, fun q hq hon => ?_⟩
    · rw [pixelsOn, hclip]
    · obtain ⟨t, ht, ht', hin⟩ := exists_inside (near_of_mem_pixels hq) hon
      obtain ⟨kept, hsome⟩ := kept_all.exists_foldlM hedges ht ht' (List.forall_mem_nil _)
        hin.between_edges
      cases hsome.symm.trans hfold

theorem Joins.mem_pixelsOn_iff_of_crossesWhole (hs : s.Joins x₀ y₀ x₁ y₁)
    (hcross : CrossesWhole x₀ y₀ x₁ y₁ width.toInt height.toInt)
    (hon : OnSurface width.toInt height.toInt (x.toInt, y.toInt)) :
    (x, y) ∈ s.pixelsOn width height ↔ (x.toInt, y.toInt) ∈ pixels x₀ y₀ x₁ y₁ := by
  rcases hs.resembles width height with ⟨c, d, hcut, -, -, hpixels⟩ | ⟨hnone, hoff⟩
  · exact (hpixels x y).trans (hcut.exact hcross _ hon)
  · rw [hnone]
    exact iff_of_false nofun fun hq => hoff _ hq hon

theorem Joins.mem_pixelsOn_iff_of_onWindow (hs : s.Joins x₀ y₀ x₁ y₁)
    (hstart : OnWindow width.toInt height.toInt (x₀, y₀))
    (hstop : OnWindow width.toInt height.toInt (x₁, y₁))
    (hon : OnSurface width.toInt height.toInt (x.toInt, y.toInt)) :
    (x, y) ∈ s.pixelsOn width height ↔ (x.toInt, y.toInt) ∈ pixels x₀ y₀ x₁ y₁ :=
  hs.mem_pixelsOn_iff_of_crossesWhole (crossesWhole_of_onWindow hstart hstop) hon

theorem paint_lineMarks_iff : Mark.Paint width height x y (Item.lineMarks width height a b k) ↔
    (x, y) ∈ (⟨a, b⟩ : Segment).pixelsOn width height := by
  simp [Mark.Paint, Item.lineMarks, Mark.points]

/-- A line is cut to the surface before it is walked, and this moves it by a pixel at most: every
pixel that is painted has one of the whole line at its side, and every pixel of the whole line on
the surface has one at its side that is painted. Where the line passes through the borders of the
window in the middle of pixels, the surface does not show that it was cut. -/
theorem cut_line_resembles_whole_line (hs : (⟨a, b⟩ : Segment).Joins x₀ y₀ x₁ y₁)
    (width height : Int32) (k : Color) :
    (∀ x y, Mark.Paint width height x y (Item.lineMarks width height a b k) →
      ∃ q ∈ pixels x₀ y₀ x₁ y₁, SideBySide x₀ y₀ x₁ y₁ (x.toInt, y.toInt) q) ∧
    (∀ q ∈ pixels x₀ y₀ x₁ y₁, OnSurface width.toInt height.toInt q →
      ∃ x y, Mark.Paint width height x y (Item.lineMarks width height a b k) ∧
        SideBySide x₀ y₀ x₁ y₁ (x.toInt, y.toInt) q) ∧
    (CrossesWhole x₀ y₀ x₁ y₁ width.toInt height.toInt →
      ∀ x y, OnSurface width.toInt height.toInt (x.toInt, y.toInt) →
        (Mark.Paint width height x y (Item.lineMarks width height a b k) ↔
          (x.toInt, y.toInt) ∈ pixels x₀ y₀ x₁ y₁)) := by
  simp only [paint_lineMarks_iff, ← and_assoc]
  refine ⟨?_, fun hcross x y hon => hs.mem_pixelsOn_iff_of_crossesWhole hcross hon⟩
  rcases hs.resembles width height with ⟨c, d, hcut, hc, hd, hpixels⟩ | ⟨hnone, hoff⟩
  · simp only [hpixels]
    refine ⟨fun x y hp => hcut.near _ hp, fun q hq hon => ?_⟩
    obtain ⟨p, hp, hbeside⟩ := hcut.covers q hq hon
    obtain ⟨hx, hy⟩ := exists_words hc hd hp
    refine ⟨.ofInt p.1, .ofInt p.2, ?_⟩
    rw [hx, hy]
    exact ⟨hp, hbeside⟩
  · rw [hnone]
    exact ⟨nofun, fun q hq hon => absurd hon (hoff q hq)⟩

theorem far_diagonal_is_whole :
    (⟨⟨ofInt32 (-2000000000), ofInt32 (-2000000000)⟩,
      ⟨ofInt32 2000000000, ofInt32 2000000000⟩⟩ : Segment).Joins (-2000000000) (-2000000000)
        2000000000 2000000000 ∧
    CrossesWhole (-2000000000) (-2000000000) 2000000000 2000000000 20 20 ∧
    Mark.Paint 20 20 7 7 (Item.lineMarks 20 20 ⟨ofInt32 (-2000000000), ofInt32 (-2000000000)⟩
      ⟨ofInt32 2000000000, ofInt32 2000000000⟩ .black) := by
  have hs := joins_ofInt32 (-2000000000) (-2000000000) 2000000000 2000000000
  have hcross : CrossesWhole (-2000000000) (-2000000000) 2000000000 2000000000 20 20 :=
    crossesWhole_of_straight (.inr (.inr rfl))
  refine ⟨hs, hcross, ((cut_line_resembles_whole_line hs 20 20 .black).2.2 hcross 7 7 ?_).2 ?_⟩
  · decide
  · exact (wide_of_le (by decide) (by decide)).mem_pixels_iff.2 (by decide)

/-- In general a line may be moved: of the line from just outside of the corner to a pixel below,
the only pixel of a surface is painted, and the whole line does not have it. -/
theorem cut_line_may_differ : ¬ ∀ (a b : Point) (x₀ y₀ x₁ y₁ : Int),
    (⟨a, b⟩ : Segment).Joins x₀ y₀ x₁ y₁ → ∀ (width height : Int32) (k : Color) (x y : Int32),
      OnSurface width.toInt height.toInt (x.toInt, y.toInt) →
        (Mark.Paint width height x y (Item.lineMarks width height a b k) ↔
          (x.toInt, y.toInt) ∈ pixels x₀ y₀ x₁ y₁) := by
  intro hall
  have hiff := hall ⟨ofInt32 (-1), ofInt32 (-1)⟩ ⟨ofInt32 0, ofInt32 2⟩ (-1) (-1) 0 2
    (joins_ofInt32 (-1) (-1) 0 2) 1 1 .black 0 0 (by decide)
  rw [paint_lineMarks_iff] at hiff
  exact absurd (hiff.1 (by decide +kernel)) (by decide)

end Segment

end PatternScript
