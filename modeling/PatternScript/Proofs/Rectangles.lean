import PatternScript.Proofs.Words
import PatternScript.Raster.Rect

/-!
# The points of a rectangle

Membership in a rectangle is four inequalities between integers. The surface itself is
the rectangle of its size, and clipping is intersection with it.
-/
namespace PatternScript.Rect

variable {r c : Rect} {x y width height : Int32}

theorem contains_iff : r.contains x y = true ↔
    (r.minX.toInt ≤ x.toInt ∧ x.toInt < r.maxX.toInt) ∧
      (r.minY.toInt ≤ y.toInt ∧ y.toInt < r.maxY.toInt) := by
  simp only [contains, Bool.and_eq_true, decide_eq_true_eq, Words.le_iff, Words.lt_iff, and_assoc]

theorem contains_ofSize : (ofSize width height).contains x y = true ↔
    (0 ≤ x.toInt ∧ x.toInt < width.toInt) ∧ (0 ≤ y.toInt ∧ y.toInt < height.toInt) :=
  contains_iff

theorem mem_points {p : Int32 × Int32} : p ∈ r.points ↔ r.contains p.1 p.2 = true := by
  simp only [points, List.mem_flatMap, List.mem_map, Words.mem_wordsBetween, contains_iff]
  constructor
  · intro h
    obtain ⟨y, hy, x, hx, rfl⟩ := h
    exact ⟨hx, hy⟩
  · intro h
    obtain ⟨hx, hy⟩ := h
    exact ⟨p.2, hy, p.1, hx, rfl⟩

theorem isEmpty_iff : r.isEmpty = true ↔
    r.maxX.toInt ≤ r.minX.toInt ∨ r.maxY.toInt ≤ r.minY.toInt := by
  simp only [isEmpty, Bool.or_eq_true, decide_eq_true_eq, ge_iff_le, Words.le_iff]

def onSurface (r : Rect) (width height : Int32) : Rect :=
  ⟨max r.minX 0, max r.minY 0, min r.maxX width, min r.maxY height⟩

theorem contains_onSurface : (r.onSurface width height).contains x y = true ↔
    r.contains x y = true ∧ (ofSize width height).contains x y = true := by
  simp only [contains_iff, onSurface, ofSize, Words.toInt_max, Words.toInt_min, Int32.toInt_zero]
  omega

theorem clip?_eq : r.clip? width height =
    if (r.onSurface width height).isEmpty then none else some (r.onSurface width height) := rfl

theorem clip?_eq_some : r.clip? width height = some c ↔
    r.onSurface width height = c ∧ c.isEmpty = false := by
  rw [clip?_eq]
  by_cases h : (r.onSurface width height).isEmpty = true
  · rw [if_pos h]
    constructor
    · intro hc
      cases hc
    · intro h
      obtain ⟨rfl, hc⟩ := h
      rw [h] at hc
      cases hc
  · rw [if_neg h]
    constructor
    · intro hc
      cases hc
      exact ⟨rfl, by simpa using h⟩
    · intro h
      obtain ⟨rfl, -⟩ := h
      rfl

theorem contains_clip (hc : r.clip? width height = some c) : c.contains x y = true ↔
    r.contains x y = true ∧ (ofSize width height).contains x y = true := by
  rw [← (clip?_eq_some.1 hc).1, contains_onSurface]

theorem contains_corner (h : r.isEmpty = false) : r.contains r.minX r.minY = true := by
  have hne : ¬ (r.maxX.toInt ≤ r.minX.toInt ∨ r.maxY.toInt ≤ r.minY.toInt) := by
    rw [← isEmpty_iff, h]
    exact Bool.false_ne_true
  rw [contains_iff]
  omega

theorem isEmpty_of_contains (h : r.contains x y = true) : r.isEmpty = false := by
  rw [contains_iff] at h
  rw [Bool.eq_false_iff, Ne, isEmpty_iff]
  omega

theorem clip_bounds (hc : r.clip? width height = some c) :
    (0 ≤ c.minX.toInt ∧ c.minX.toInt < c.maxX.toInt ∧ c.maxX.toInt ≤ width.toInt) ∧
      (0 ≤ c.minY.toInt ∧ c.minY.toInt < c.maxY.toInt ∧ c.maxY.toInt ≤ height.toInt) := by
  obtain ⟨rfl, hne⟩ := clip?_eq_some.1 hc
  have hcorner := contains_iff.1 (contains_corner hne)
  simp only [onSurface, Words.toInt_max, Words.toInt_min, Int32.toInt_zero] at hcorner ⊢
  omega

theorem clip?_eq_none_iff : r.clip? width height = none ↔
    ∀ x y, r.contains x y = true → (ofSize width height).contains x y = false := by
  constructor
  · intro hnone x y hr
    rw [Bool.eq_false_iff]
    intro hs
    have hin := contains_onSurface.2 ⟨hr, hs⟩
    have hsome := clip?_eq_some.2 ⟨rfl, isEmpty_of_contains hin⟩
    rw [hnone] at hsome
    cases hsome
  · intro hout
    cases hc : r.clip? width height with
    | none => rfl
    | some c =>
      obtain ⟨rfl, hne⟩ := clip?_eq_some.1 hc
      obtain ⟨hr, hs⟩ := contains_onSurface.1 (contains_corner hne)
      rw [hout _ _ hr] at hs
      cases hs

def Inside (r : Rect) (width height : Int32) : Prop :=
  ∀ x y, r.contains x y = true → (ofSize width height).contains x y = true

theorem inside_ofSize (width height : Int32) : (ofSize width height).Inside width height :=
  fun _ _ h => h

theorem inside_of_bounds (hx : 0 ≤ r.minX.toInt ∧ r.maxX.toInt ≤ width.toInt)
    (hy : 0 ≤ r.minY.toInt ∧ r.maxY.toInt ≤ height.toInt) : r.Inside width height := by
  intro x y h
  rw [contains_iff] at h
  rw [contains_ofSize]
  omega

theorem Inside.bounds (h : r.Inside width height) (hne : r.isEmpty = false) :
    (0 ≤ r.minX.toInt ∧ r.maxX.toInt ≤ width.toInt) ∧
      (0 ≤ r.minY.toInt ∧ r.maxY.toInt ≤ height.toInt) := by
  have hcorner := contains_iff.1 (contains_corner hne)
  have hminX := (Words.bounds r.minX).1
  have hminY := (Words.bounds r.minY).1
  have hmaxX := (Words.bounds r.maxX).2
  have hmaxY := (Words.bounds r.maxY).2
  have hone : (1 : Int32).toInt = 1 := rfl
  have hx : (r.maxX - 1).toInt = r.maxX.toInt - 1 :=
    Words.toInt_sub_of_fits (by omega) (by omega)
  have hy : (r.maxY - 1).toInt = r.maxY.toInt - 1 :=
    Words.toInt_sub_of_fits (by omega) (by omega)
  have hfar : r.contains (r.maxX - 1) (r.maxY - 1) = true := by
    rw [contains_iff]
    omega
  have hnear := contains_ofSize.1 (h _ _ (contains_corner hne))
  have hfar' := contains_ofSize.1 (h _ _ hfar)
  omega

end PatternScript.Rect
