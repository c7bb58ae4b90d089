import PatternScript.Proofs.Rectangles
import PatternScript.Raster.Canvas

/-!
# A canvas as a function from pixels to colors

Every pixel on a canvas has a place of its own among its colors, and a mark gives its color
to exactly its points. So what a list of marks leaves at a pixel is the color of the last
mark with a point there, and two canvases of one size are equal when all their pixels are.
-/
namespace PatternScript

/-- The color that the last of some marks with a point at the pixel gives to it. -/
def Mark.topColor (width height x y : Int32) : List Mark → Option Color
  | [] => none
  | m :: rest =>
    (topColor width height x y rest).or
      (if (x, y) ∈ m.points width height then some m.color else none)

def Rect.Within (box : Rect) (c : Canvas) : Prop :=
  (0 ≤ box.minX.toInt ∧ box.maxX.toInt ≤ c.width.toInt) ∧
    (0 ≤ box.minY.toInt ∧ box.maxY.toInt ≤ c.height.toInt)

theorem Mark.boxOn_within (c : Canvas) (left top width height : Int32) :
    (Mark.boxOn c.width c.height left top width height).Within c := by
  simp only [Rect.Within, Mark.boxOn, Words.toInt_max, Words.toInt_min, Int32.toInt_zero]
  omega

namespace Canvas

variable {c c' : Canvas} {x y x' y' : Int32} {color : Color}

def On (c : Canvas) (x y : Int32) : Prop := (Rect.ofSize c.width c.height).contains x y = true

/-- What the construction of a canvas promises: its pixels fit a word and are all there. -/
structure WellFormed (c : Canvas) : Prop where
  width_nonneg : 0 ≤ c.width.toInt
  height_nonneg : 0 ≤ c.height.toInt
  count_fits : c.width.toInt * c.height.toInt < 2147483648
  size_eq : (c.pixels.size : Int) = c.width.toInt * c.height.toInt

theorem wellFormed_of_pixels (hc : c.WellFormed) {pixels : Array Color}
    (hsize : pixels.size = c.pixels.size) : { c with pixels }.WellFormed :=
  ⟨hc.1, hc.2, hc.3, by rw [← hc.4]; exact congrArg Nat.cast hsize⟩

theorem wellFormed_blank {width height : Int32}
    (fits : max width.toInt 0 * max height.toInt 0 < 2147483648) :
    (blank width height).WellFormed := by
  have hw : (max width 0).toInt = max width.toInt 0 := Words.toInt_max _ _
  have hh : (max height 0).toInt = max height.toInt 0 := Words.toInt_max _ _
  have hpos : 0 ≤ max width.toInt 0 * max height.toInt 0 := Int.mul_nonneg (by omega) (by omega)
  have hmul : (max width 0 * max height 0).toInt = max width.toInt 0 * max height.toInt 0 := by
    rw [Words.toInt_mul_of_fits, hw, hh] <;> rw [hw, hh] <;> omega
  refine ⟨?_, ?_, ?_, ?_⟩
  · change 0 ≤ (max width 0).toInt
    omega
  · change 0 ≤ (max height 0).toInt
    omega
  · change (max width 0).toInt * (max height 0).toInt < _
    rwa [hw, hh]
  · change ((Array.replicate (max width 0 * max height 0).toInt.toNat Color.white).size : Int) =
      (max width 0).toInt * (max height 0).toInt
    rw [Array.size_replicate, hmul, hw, hh, Int.toNat_of_nonneg hpos]

def place (c : Canvas) (x y : Int32) : Nat := (y * c.width + x).toNatClampNeg

theorem index?_eq_some_iff {i : Nat} : c.index? x y = some i ↔ c.On x y ∧ c.place x y = i := by
  rw [index?, On]
  rw [Rect.contains_ofSize]
  split
  next h =>
    simp only [Bool.or_eq_true, decide_eq_true_eq, ge_iff_le, Words.lt_iff, Words.le_iff,
      Int32.toInt_zero] at h
    constructor
    · intro hn
      cases hn
    · intro h
      obtain ⟨hon, -⟩ := h
      omega
  next h =>
    simp only [Bool.or_eq_true, decide_eq_true_eq, ge_iff_le, Words.lt_iff, Words.le_iff,
      Int32.toInt_zero] at h
    rw [Option.some.injEq]
    constructor
    · intro hi
      exact ⟨by omega, hi⟩
    · exact And.right

theorem index?_of_on (h : c.On x y) : c.index? x y = some (c.place x y) :=
  index?_eq_some_iff.2 ⟨h, rfl⟩

theorem index?_of_not_on (h : ¬ c.On x y) : c.index? x y = none := by
  cases hi : c.index? x y with
  | none => rfl
  | some i => exact absurd (index?_eq_some_iff.1 hi).1 h

theorem pixel?_of_on (h : c.On x y) : c.pixel? x y = c.pixels[c.place x y]? := by
  rw [pixel?, index?_of_on h, Option.bind_some]

theorem pixel?_mk (h : c.On x y) (pixels : Array Color) :
    { c with pixels }.pixel? x y = pixels[c.place x y]? :=
  pixel?_of_on (c := { c with pixels }) h

section Places

variable (hc : c.WellFormed)
include hc

theorem place_eq (h : c.On x y) : (c.place x y : Int) = y.toInt * c.width.toInt + x.toInt :=
  have hon := Rect.contains_ofSize.1 h
  (Words.toInt_place hon.1 hon.2 hc.count_fits).1

theorem place_lt (h : c.On x y) : c.place x y < c.pixels.size := by
  have hon := Rect.contains_ofSize.1 h
  obtain ⟨heq, hlt⟩ := Words.toInt_place hon.1 hon.2 hc.count_fits
  have hsize := hc.size_eq
  have heq' : (c.place x y : Int) = _ := heq
  omega

theorem place_injective (h : c.On x y) (h' : c.On x' y') (heq : c.place x y = c.place x' y') :
    x = x' ∧ y = y' := by
  have hint : (c.place x y : Int) = c.place x' y' := by rw [heq]
  rw [place_eq hc h, place_eq hc h'] at hint
  obtain ⟨hx, hy⟩ := Words.place_injective (Rect.contains_ofSize.1 h).1
    (Rect.contains_ofSize.1 h').1 hint
  exact ⟨Int32.toInt_inj.1 hx, Int32.toInt_inj.1 hy⟩

theorem exists_place {i : Nat} (hi : i < c.pixels.size) : ∃ x y, c.On x y ∧ c.place x y = i := by
  have hsize := hc.size_eq
  have hw := hc.width_nonneg
  have hw₁ := (Words.bounds c.width).2
  have hh₁ := (Words.bounds c.height).2
  have hpos : 0 < c.width.toInt := by
    by_cases h : c.width.toInt = 0
    · rw [h, Int.zero_mul] at hsize
      omega
    · omega
  have hlt : (i : Int) / c.width.toInt < c.height.toInt := by
    rw [Int.ediv_lt_iff_lt_mul hpos, Int.mul_comm]
    omega
  have hquot : 0 ≤ (i : Int) / c.width.toInt := Int.ediv_nonneg (by omega) hw
  have hrem := Int.emod_nonneg (i : Int) (b := c.width.toInt) (by omega)
  have hrem₁ := Int.emod_lt_of_pos (i : Int) hpos
  have hx : (Int32.ofInt (i % c.width.toInt)).toInt = i % c.width.toInt :=
    Words.toInt_ofInt_of_fits (by omega) (by omega)
  have hy : (Int32.ofInt (i / c.width.toInt)).toInt = i / c.width.toInt :=
    Words.toInt_ofInt_of_fits (by omega) (by omega)
  have hon : c.On (.ofInt (i % c.width.toInt)) (.ofInt (i / c.width.toInt)) := by
    rw [On, Rect.contains_ofSize, hx, hy]
    omega
  refine ⟨_, _, hon, ?_⟩
  have hplace := place_eq hc hon
  rw [hx, hy, Int.ediv_mul_add_emod] at hplace
  omega

end Places

theorem ext_of_pixels (hc : c.WellFormed) (hc' : c'.WellFormed) (hw : c'.width = c.width)
    (hh : c'.height = c.height) (h : ∀ x y, c.On x y → c'.pixel? x y = c.pixel? x y) :
    c' = c := by
  obtain ⟨w, h', pixels⟩ := c
  obtain ⟨w', h'', pixels'⟩ := c'
  cases hw
  cases hh
  have hsize : pixels'.size = pixels.size := by
    have h₁ := hc.size_eq
    have h₂ := hc'.size_eq
    simp only at h₁ h₂
    omega
  congr 1
  apply Array.ext_getElem?
  intro i
  by_cases hi : i < pixels.size
  · obtain ⟨x, y, hon, rfl⟩ := exists_place hc hi
    have hxy := h x y hon
    rwa [pixel?_of_on hon, pixel?_mk hon pixels'] at hxy
  · rw [Array.getElem?_eq_none (by omega), Array.getElem?_eq_none (by omega)]

def SameSize (c c' : Canvas) : Prop :=
  ∃ pixels : Array Color, pixels.size = c.pixels.size ∧ c' = { c with pixels }

namespace SameSize

variable {c'' : Canvas} (same : c.SameSize c')
include same

theorem trans (same' : c'.SameSize c'') : c.SameSize c'' := by
  obtain ⟨pixels, hsize, rfl⟩ := same
  obtain ⟨pixels', hsize', rfl⟩ := same'
  exact ⟨pixels', hsize'.trans hsize, rfl⟩

theorem wellFormed (hc : c.WellFormed) : c'.WellFormed := by
  obtain ⟨pixels, hsize, rfl⟩ := same
  exact wellFormed_of_pixels hc hsize

theorem width_eq : c'.width = c.width := by
  obtain ⟨pixels, -, rfl⟩ := same
  rfl

theorem height_eq : c'.height = c.height := by
  obtain ⟨pixels, -, rfl⟩ := same
  rfl

theorem on_iff : c'.On x y ↔ c.On x y := by
  rw [On, On, same.width_eq, same.height_eq]

end SameSize

theorem sameSize_refl (c : Canvas) : c.SameSize c := ⟨c.pixels, rfl, rfl⟩

theorem sameSize_set (c : Canvas) (x y : Int32) (color : Color) : c.SameSize (c.set x y color) := by
  rw [set]
  cases c.index? x y with
  | none => exact sameSize_refl c
  | some i => exact ⟨_, Array.size_setIfInBounds, rfl⟩

theorem sameSize_setAll (c : Canvas) (ps : List (Int32 × Int32)) (color : Color) :
    c.SameSize (c.setAll ps color) := by
  rw [setAll]
  induction ps generalizing c with
  | nil => exact sameSize_refl c
  | cons p ps ih => exact (sameSize_set c p.1 p.2 color).trans (ih _)

theorem size_fillFrom (pixels : Array Color) (color : Color) (start count : Nat) :
    (fillFrom pixels color start count).size = pixels.size := by
  induction count generalizing pixels start with
  | zero => rfl
  | succ count ih => rw [fillFrom, ih, Array.size_setIfInBounds]

theorem size_foldl_fillFrom {α : Type} (start : α → Nat) (count : Nat) (rows : List α)
    (pixels : Array Color) (color : Color) :
    (rows.foldl (fun pixels row => fillFrom pixels color (start row) count) pixels).size =
      pixels.size := by
  induction rows generalizing pixels with
  | nil => rfl
  | cons row rows ih => rw [List.foldl_cons, ih, size_fillFrom]

theorem sameSize_fillRows (c : Canvas) (x y width height : Int32) (color : Color) :
    c.SameSize (c.fillRows x y width height color) := by
  simp only [fillRows]
  split
  next => exact sameSize_refl c
  next => exact ⟨_, size_foldl_fillFrom _ _ _ _ _, rfl⟩

theorem sameSize_draw (c : Canvas) (m : Mark) : c.SameSize (c.draw m) := by
  cases m with
  | pixel x y color => exact sameSize_set c x y color
  | box x y w h color => exact sameSize_fillRows c x y w h color
  | bitmap x y cells w h color => exact sameSize_setAll c _ color

theorem sameSize_drawAll (c : Canvas) (marks : List Mark) : c.SameSize (c.drawAll marks) := by
  rw [drawAll]
  induction marks generalizing c with
  | nil => exact sameSize_refl c
  | cons m marks ih => exact (sameSize_draw c m).trans (ih _)

theorem getElem?_fillFrom (pixels : Array Color) (color : Color) (start count i : Nat)
    (hi : i < pixels.size) : (fillFrom pixels color start count)[i]? =
      if start ≤ i ∧ i < start + count then some color else pixels[i]? := by
  induction count generalizing pixels start with
  | zero => rw [fillFrom, if_neg (by omega)]
  | succ count ih =>
    rw [fillFrom, ih _ _ (by simpa using hi), Array.getElem?_setIfInBounds]
    by_cases hstart : start = i
    · rw [if_neg (by omega), if_pos hstart, if_pos (hstart ▸ hi), if_pos (by omega)]
    · rw [if_neg hstart]
      by_cases hin : start + 1 ≤ i ∧ i < start + 1 + count
      · rw [if_pos hin, if_pos (by omega)]
      · rw [if_neg hin, if_neg (by omega)]

theorem getElem?_foldl_fillFrom {α : Type} (start : α → Nat) (count : Nat) (rows : List α)
    (pixels : Array Color) (color : Color) (i : Nat) (hi : i < pixels.size) :
    (rows.foldl (fun pixels row => fillFrom pixels color (start row) count) pixels)[i]? =
      if ∃ row ∈ rows, start row ≤ i ∧ i < start row + count then some color else pixels[i]? := by
  induction rows generalizing pixels with
  | nil => simp
  | cons row rows ih =>
    rw [List.foldl_cons, ih _ (by rwa [size_fillFrom]), getElem?_fillFrom _ _ _ _ _ hi]
    by_cases hrows : ∃ row ∈ rows, start row ≤ i ∧ i < start row + count
    · rw [if_pos hrows, if_pos]
      obtain ⟨r, hr, hin⟩ := hrows
      exact ⟨r, List.mem_cons_of_mem _ hr, hin⟩
    · rw [if_neg hrows]
      simp only [List.mem_cons, exists_eq_or_imp, or_iff_left hrows]

section Painting

variable (hc : c.WellFormed) (hon : c.On x y)
include hc hon

theorem pixel?_set : (c.set x' y' color).pixel? x y =
    if (x, y) = (x', y') then some color else c.pixel? x y := by
  by_cases hon' : c.On x' y'
  · rw [set, index?_of_on hon', pixel?_of_on hon]
    refine (pixel?_mk hon _).trans ?_
    rw [Array.getElem?_setIfInBounds]
    by_cases heq : (x, y) = (x', y')
    · cases heq
      rw [if_pos rfl, if_pos (place_lt hc hon), if_pos rfl]
    · rw [if_neg heq, if_neg]
      intro hplace
      obtain ⟨rfl, rfl⟩ := place_injective hc hon' hon hplace
      exact heq rfl
  · rw [set, index?_of_not_on hon', if_neg]
    intro heq
    cases heq
    exact hon' hon

theorem pixel?_setAll (ps : List (Int32 × Int32)) : (c.setAll ps color).pixel? x y =
    if (x, y) ∈ ps then some color else c.pixel? x y := by
  rw [setAll]
  induction ps generalizing c with
  | nil => simp
  | cons p ps ih =>
    have same := sameSize_set c p.1 p.2 color
    rw [List.foldl_cons, ih (same.wellFormed hc) (same.on_iff.2 hon), pixel?_set hc hon]
    by_cases hp : (x, y) = p
    · simp [hp]
    · simp [hp]

theorem place_in_row_iff {box : Rect} {row : Int32} (hrow : c.On box.minX row)
    (hlt : box.minX.toInt < box.maxX.toInt) (hmax : box.maxX.toInt ≤ c.width.toInt) :
    c.place box.minX row ≤ c.place x y ∧
        c.place x y < c.place box.minX row + (box.maxX - box.minX).toNatClampNeg ↔
      y = row ∧ box.minX.toInt ≤ x.toInt ∧ x.toInt < box.maxX.toInt := by
  have hmin := (Rect.contains_ofSize.1 hrow).1.1
  have hx := (Rect.contains_ofSize.1 hon).1
  have hbound := (Words.bounds box.maxX).2
  have hsub : (box.maxX - box.minX).toInt = box.maxX.toInt - box.minX.toInt :=
    Words.toInt_sub_of_fits (by omega) (by omega)
  have hcount : ((box.maxX - box.minX).toNatClampNeg : Int) = box.maxX.toInt - box.minX.toInt := by
    change ((box.maxX - box.minX).toInt.toNat : Int) = _
    rw [hsub, Int.toNat_of_nonneg (by omega)]
  have hfirst := place_eq hc hrow
  have hplace := place_eq hc hon
  constructor
  · intro h
    obtain ⟨hle, hbefore⟩ := h
    have hin : 0 ≤ (c.place x y : Int) - row.toInt * c.width.toInt ∧
        (c.place x y : Int) - row.toInt * c.width.toInt < c.width.toInt := by omega
    obtain ⟨hxe, hye⟩ := Words.place_injective hx hin
      (show y.toInt * c.width.toInt + x.toInt = row.toInt * c.width.toInt + _ by omega)
    exact ⟨Int32.toInt_inj.1 hye, by omega⟩
  · intro h
    obtain ⟨rfl, hxin⟩ := h
    omega

theorem exists_row_iff {box : Rect} (hne : box.isEmpty = false) (hin : box.Within c) :
    (∃ row ∈ wordsBetween box.minY box.maxY,
        c.place box.minX row ≤ c.place x y ∧
          c.place x y < c.place box.minX row + (box.maxX - box.minX).toNatClampNeg) ↔
      box.contains x y = true := by
  obtain ⟨⟨hminX, hmaxX⟩, hminY, hmaxY⟩ := hin
  have hcorner := Rect.contains_iff.1 (Rect.contains_corner hne)
  have on_row {row : Int32} (h : box.minY.toInt ≤ row.toInt ∧ row.toInt < box.maxY.toInt) :
      c.On box.minX row := by
    rw [On, Rect.contains_ofSize]
    omega
  rw [Rect.contains_iff]
  constructor
  · intro h
    obtain ⟨row, hrow, hplace⟩ := h
    have hrow' := Words.mem_wordsBetween.1 hrow
    obtain ⟨rfl, hx⟩ := (place_in_row_iff hc hon (on_row hrow') (by omega) hmaxX).1 hplace
    exact ⟨hx, hrow'⟩
  · intro h
    obtain ⟨hx, hy⟩ := h
    refine ⟨y, Words.mem_wordsBetween.2 hy, ?_⟩
    exact (place_in_row_iff hc hon (on_row hy) (by omega) hmaxX).2 ⟨rfl, hx⟩

theorem pixel?_fillRows {left top width height : Int32} :
    (c.fillRows left top width height color).pixel? x y =
      if (Mark.boxOn c.width c.height left top width height).contains x y = true then some color
      else c.pixel? x y := by
  have hwithin := Mark.boxOn_within c left top width height
  rw [fillRows]
  generalize Mark.boxOn c.width c.height left top width height = box at *
  by_cases hempty : box.isEmpty = true
  · have hout : ¬ box.contains x y = true := by
      intro hin
      rw [Rect.isEmpty_of_contains hin] at hempty
      cases hempty
    rw [if_neg hout]
    simp only [hempty, if_true]
  · have hrows := exists_row_iff hc hon (by simpa using hempty) hwithin
    rw [pixel?_of_on hon, if_neg hempty, pixel?_mk hon,
      getElem?_foldl_fillFrom _ _ _ _ _ _ (place_lt hc hon)]
    exact ite_congr (propext hrows) (fun _ => rfl) (fun _ => rfl)

theorem pixel?_draw (m : Mark) : (c.draw m).pixel? x y =
    if (x, y) ∈ m.points c.width c.height then some m.color else c.pixel? x y := by
  cases m with
  | pixel x' y' color =>
    simp only [draw, Mark.points, Mark.color, List.mem_singleton]
    exact pixel?_set hc hon
  | box left top w h color =>
    simp only [draw, Mark.points, Mark.color, Rect.mem_points]
    exact pixel?_fillRows hc hon
  | bitmap left top cells w h color => exact pixel?_setAll hc hon _

theorem pixel?_drawAll (marks : List Mark) : (c.drawAll marks).pixel? x y =
    (Mark.topColor c.width c.height x y marks).or (c.pixel? x y) := by
  rw [drawAll]
  induction marks generalizing c with
  | nil => rfl
  | cons m marks ih =>
    have same := sameSize_draw c m
    rw [List.foldl_cons, ih (same.wellFormed hc) (same.on_iff.2 hon), pixel?_draw hc hon,
      same.width_eq, same.height_eq, Mark.topColor]
    split
    next => cases Mark.topColor c.width c.height x y marks <;> rfl
    next => cases Mark.topColor c.width c.height x y marks <;> rfl

end Painting

theorem drawAll_eq_of_topColor (hc : c.WellFormed) {marks marks' : List Mark}
    (h : ∀ x y, c.On x y →
      Mark.topColor c.width c.height x y marks = Mark.topColor c.width c.height x y marks') :
    c.drawAll marks = c.drawAll marks' := by
  have same := sameSize_drawAll c marks
  have same' := sameSize_drawAll c marks'
  refine ext_of_pixels (same'.wellFormed hc) (same.wellFormed hc)
    (same.width_eq.trans same'.width_eq.symm) (same.height_eq.trans same'.height_eq.symm) ?_
  intro x y hon
  have hon' := same'.on_iff.1 hon
  rw [pixel?_drawAll hc hon', pixel?_drawAll hc hon', h x y hon']

end Canvas

end PatternScript
