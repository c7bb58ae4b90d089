import PatternScript.Proofs.CanvasPixels

/-!
# The last write to a pixel

The region of a write is told in integers, which know no end of a row and no largest word. A
canvas that starts white shows at each of its pixels the color of the last write whose region
holds the pixel, however many writes there were and wherever they lie. So the two ways to fill
a box, by rows and by single pixels, cannot be told apart.
-/
namespace PatternScript

variable {c : Canvas} {x y : Int32}

namespace Mark

/-- Whether the region of the mark, which may leave the surface, holds the point. -/
def reaches (x y : Int) : Mark → Bool
  | pixel px py _ => x == px.toInt && y == py.toInt
  | box left top w h _ =>
    (left.toInt ≤ x && x < left.toInt + w.toInt) && (top.toInt ≤ y && y < top.toInt + h.toInt)
  | bitmap left top cells w h _ =>
    let col := x - left.toInt
    let row := y - top.toInt
    (0 ≤ col && col < w) && (0 ≤ row && row < h) && cells[row.toNat * w + col.toNat]? == some 1

def Sized : Mark → Prop
  | bitmap _ _ _ w h _ => w < 2147483648 ∧ h < 2147483648
  | pixel .. | box .. => True

/-- No pixel stands at the greatest word, so a sum that is cut off there misses the surface as
the sum of the integers does. -/
theorem saturatingAdd_eq_iff {a v limit : Int32} {n : Nat} (hn : n < 2147483648)
    (hv : v.toInt < limit.toInt) :
    v = saturatingAdd a (Int32.ofNat n) ↔ v.toInt = a.toInt + n := by
  have ha := Words.bounds a
  have hlimit := (Words.bounds limit).2
  have hofNat : (Int32.ofNat n).toInt = n := by
    rw [Int32.toInt_ofNat', Words.bmod_of_fits (by omega) (by omega)]
  rw [← Int32.toInt_inj, Words.toInt_saturatingAdd, hofNat]
  omega

theorem mem_boxOn_iff (hon : c.On x y) {left top w h : Int32} :
    (x, y) ∈ (boxOn c.width c.height left top w h).points ↔
      (left.toInt ≤ x.toInt ∧ x.toInt < left.toInt + w.toInt) ∧
        (top.toInt ≤ y.toInt ∧ y.toInt < top.toInt + h.toInt) := by
  have hin := Rect.contains_ofSize.1 hon
  have hwidth := (Words.bounds c.width).2
  have hheight := (Words.bounds c.height).2
  simp only [Rect.mem_points, Rect.contains_iff, boxOn, Words.toInt_max, Words.toInt_min,
    Words.toInt_saturatingAdd, Int32.toInt_zero]
  omega

theorem mem_bitmapPoints_iff (hon : c.On x y) {left top : Int32} {cells : Array UInt8}
    {w h : Nat} (hw : w < 2147483648) (hh : h < 2147483648) :
    (x, y) ∈ bitmapPoints left top cells w h ↔
      ∃ col row : Nat, col < w ∧ row < h ∧ x.toInt = left.toInt + col ∧
        y.toInt = top.toInt + row ∧ cells[row * w + col]? = some 1 := by
  have hin := Rect.contains_ofSize.1 hon
  simp only [bitmapPoints, List.mem_flatMap, List.mem_filterMap, List.mem_range,
    Option.ite_none_right_eq_some, Option.some.injEq, Prod.mk.injEq]
  constructor
  · intro h
    obtain ⟨row, hrow, col, hcol, hset, hx, hy⟩ := h
    exact ⟨col, row, hcol, hrow, (saturatingAdd_eq_iff (by omega) hin.1.2).1 hx.symm,
      (saturatingAdd_eq_iff (by omega) hin.2.2).1 hy.symm, hset⟩
  · intro h
    obtain ⟨col, row, hcol, hrow, hx, hy, hset⟩ := h
    exact ⟨row, hrow, col, hcol, hset, ((saturatingAdd_eq_iff (by omega) hin.1.2).2 hx).symm,
      ((saturatingAdd_eq_iff (by omega) hin.2.2).2 hy).symm⟩

theorem mem_points_iff (hon : c.On x y) {m : Mark} (hm : m.Sized) :
    (x, y) ∈ m.points c.width c.height ↔ m.reaches x.toInt y.toInt = true := by
  cases m with
  | pixel px py color =>
    simp [points, reaches, Int32.toInt_inj]
  | box left top w h color =>
    rw [points, mem_boxOn_iff hon]
    simp [reaches]
  | bitmap left top cells w h color =>
    rw [points, mem_bitmapPoints_iff hon hm.1 hm.2]
    simp only [reaches, Bool.and_eq_true, decide_eq_true_eq, beq_iff_eq]
    constructor
    · intro h
      obtain ⟨col, row, hcol, hrow, hx, hy, hset⟩ := h
      have hcol' : (x.toInt - left.toInt).toNat = col := by omega
      have hrow' : (y.toInt - top.toInt).toNat = row := by omega
      rw [hcol', hrow']
      exact ⟨⟨by omega, by omega⟩, hset⟩
    · intro h
      obtain ⟨⟨hcol, hrow⟩, hset⟩ := h
      exact ⟨_, _, by omega, by omega, by omega, by omega, hset⟩

end Mark

inductive Write
  | mark (m : Mark)
  | clear (color : Color)

namespace Write

def color : Write → Color
  | mark m => m.color
  | clear color => color

def reaches (x y : Int) : Write → Bool
  | mark m => m.reaches x y
  | clear _ => true

def Sized : Write → Prop
  | mark m => m.Sized
  | clear _ => True

/-- The last write whose region holds a pixel. -/
def last? (x y : Int) (writes : List Write) : Option Write :=
  writes.reverse.find? (·.reaches x y)

theorem last?_cons (x y : Int) (w : Write) (later : List Write) :
    last? x y (w :: later) =
      (last? x y later).or (if w.reaches x y then some w else none) := by
  rw [last?, List.reverse_cons, List.find?_append, last?, List.find?_singleton]

end Write

namespace Canvas

def write (c : Canvas) : Write → Canvas
  | .mark m => c.draw m
  | .clear color => c.clear color

/-- The same write on a surface that can do no more than set single pixels. -/
def writePixels (c : Canvas) : Write → Canvas
  | .mark (.pixel x y color) => c.set x y color
  | .mark (.box x y width height color) => c.fillPixels x y width height color
  | .mark (.bitmap x y cells width height color) => c.blit x y cells width height color
  | .clear color => c.fillPixels 0 0 c.width c.height color

def writeAll (c : Canvas) (writes : List Write) : Canvas := writes.foldl write c

def writeAllPixels (c : Canvas) (writes : List Write) : Canvas := writes.foldl writePixels c

theorem fillPixels_eq_fillRows (hc : c.WellFormed) (left top width height : Int32)
    (color : Color) :
    c.fillPixels left top width height color = c.fillRows left top width height color := by
  have same := sameSize_fillRows c left top width height color
  have same' := sameSize_setAll c (Mark.boxOn c.width c.height left top width height).points color
  refine ext_of_pixels (same.wellFormed hc) (same'.wellFormed hc)
    (same'.width_eq.trans same.width_eq.symm) (same'.height_eq.trans same.height_eq.symm) ?_
  intro x y hon
  have hon' := same.on_iff.1 hon
  rw [fillPixels, pixel?_setAll hc hon', pixel?_fillRows hc hon']
  simp only [Rect.mem_points]

theorem writePixels_eq_write (hc : c.WellFormed) (w : Write) : c.writePixels w = c.write w := by
  cases w with
  | mark m =>
    cases m with
    | pixel x y color => rfl
    | box left top width height color => exact fillPixels_eq_fillRows hc _ _ _ _ _
    | bitmap left top cells width height color => rfl
  | clear color => exact fillPixels_eq_fillRows hc _ _ _ _ _

theorem sameSize_write (c : Canvas) (w : Write) : c.SameSize (c.write w) := by
  cases w with
  | mark m => exact sameSize_draw c m
  | clear color => exact sameSize_fillRows c 0 0 c.width c.height color

theorem sameSize_writeAll (c : Canvas) (writes : List Write) : c.SameSize (c.writeAll writes) := by
  rw [writeAll]
  induction writes generalizing c with
  | nil => exact sameSize_refl c
  | cons w writes ih => exact (sameSize_write c w).trans (ih _)

theorem writeAllPixels_eq_writeAll (hc : c.WellFormed) (writes : List Write) :
    c.writeAllPixels writes = c.writeAll writes := by
  rw [writeAllPixels, writeAll]
  induction writes generalizing c with
  | nil => rfl
  | cons w writes ih =>
    rw [List.foldl_cons, List.foldl_cons, writePixels_eq_write hc,
      ih ((sameSize_write c w).wellFormed hc)]

theorem pixel?_write (hc : c.WellFormed) (hon : c.On x y) {w : Write} (hw : w.Sized) :
    (c.write w).pixel? x y =
      if w.reaches x.toInt y.toInt then some w.color else c.pixel? x y := by
  cases w with
  | mark m =>
    rw [write, pixel?_draw hc hon]
    exact ite_congr (propext (Mark.mem_points_iff hon hw)) (fun _ => rfl) (fun _ => rfl)
  | clear color =>
    rw [write, clear, pixel?_fillRows hc hon, if_pos]
    · rfl
    · rw [← Rect.mem_points (p := (x, y)), Mark.mem_boxOn_iff hon, Int32.toInt_zero]
      have hin := Rect.contains_ofSize.1 hon
      omega

theorem pixel?_writeAll (hc : c.WellFormed) (hon : c.On x y) (writes : List Write)
    (hsized : ∀ w ∈ writes, w.Sized) : (c.writeAll writes).pixel? x y =
      ((Write.last? x.toInt y.toInt writes).map Write.color).or (c.pixel? x y) := by
  rw [writeAll]
  induction writes generalizing c with
  | nil => rfl
  | cons w later ih =>
    have same := sameSize_write c w
    rw [List.foldl_cons, ih (same.wellFormed hc) (same.on_iff.2 hon)
      (fun w hw => hsized w (List.mem_cons_of_mem _ hw)),
      pixel?_write hc hon (hsized w List.mem_cons_self), Write.last?_cons]
    cases Write.last? x.toInt y.toInt later with
    | some w' => rfl
    | none =>
      rw [Option.map_none, Option.none_or, Option.none_or]
      split
      · rfl
      · rfl

theorem pixel?_of_not_on (h : ¬ c.On x y) : c.pixel? x y = none := by
  rw [pixel?, index?_of_not_on h, Option.bind_none]

theorem pixel?_blank {width height : Int32}
    (fits : max width.toInt 0 * max height.toInt 0 < 2147483648)
    (hon : (blank width height).On x y) : (blank width height).pixel? x y = some .white := by
  have hlt := place_lt (wellFormed_blank fits) hon
  rw [pixel?_of_on hon]
  rw [blank] at hlt ⊢
  rw [Array.size_replicate] at hlt
  rw [Array.getElem?_replicate, if_pos hlt]

theorem on_blank_iff {width height : Int32} : (blank width height).On x y ↔
    (0 ≤ x.toInt ∧ x.toInt < width.toInt) ∧ (0 ≤ y.toInt ∧ y.toInt < height.toInt) := by
  rw [On, Rect.contains_ofSize]
  change (_ ∧ _ < (max width 0).toInt) ∧ _ ∧ _ < (max height 0).toInt ↔ _
  rw [Words.toInt_max, Words.toInt_max, Int32.toInt_zero]
  omega

theorem count_black_add_count_white (c : Canvas) :
    c.count .black + c.count .white = c.pixels.size := by
  have hwhite : (fun p : Color => p == .white) = fun p => decide ¬ (p == .black) = true := by
    funext p
    cases p <;> rfl
  rw [count, count, hwhite, Array.size_eq_countP_add_countP (p := (· == .black))]

/-- A canvas that started white shows at each pixel the color of the last write for it, whether
boxes are filled by rows or by pixels, and no pixel is lost. -/
theorem pixel_is_last_write {width height : Int32}
    (fits : max width.toInt 0 * max height.toInt 0 < 2147483648) (writes : List Write)
    (hsized : ∀ w ∈ writes, w.Sized) :
    (∀ x y, ((blank width height).writeAll writes).pixel? x y =
      if (0 ≤ x.toInt ∧ x.toInt < width.toInt) ∧ (0 ≤ y.toInt ∧ y.toInt < height.toInt) then
        some (((Write.last? x.toInt y.toInt writes).map Write.color).getD .white)
      else none) ∧
    (blank width height).writeAllPixels writes = (blank width height).writeAll writes ∧
    ((((blank width height).writeAll writes).count .black +
        ((blank width height).writeAll writes).count .white : Nat) : Int) =
      max width.toInt 0 * max height.toInt 0 := by
  have hc := wellFormed_blank fits
  have same := (blank width height).sameSize_writeAll writes
  refine ⟨?_, writeAllPixels_eq_writeAll hc writes, ?_⟩
  · intro x y
    by_cases hon : (blank width height).On x y
    · rw [if_pos (on_blank_iff.1 hon), pixel?_writeAll hc hon writes hsized,
        pixel?_blank fits hon]
      cases Write.last? x.toInt y.toInt writes <;> rfl
    · rw [if_neg (mt on_blank_iff.2 hon), pixel?_of_not_on (mt same.on_iff.1 hon)]
  · rw [count_black_add_count_white, (same.wellFormed hc).size_eq, same.width_eq, same.height_eq]
    change (max width 0).toInt * (max height 0).toInt = _
    rw [Words.toInt_max, Words.toInt_max, Int32.toInt_zero]

theorem pixel_is_last_write_of_overhang :
    let writes : List Write := [.clear .black, .mark (.bitmap (-1) 1 #[0, 1, 1, 0] 2 2 .white),
      .mark (.box 0 2 2147483647 2147483647 .white), .mark (.box 3 2 2147483647 (-1) .black)]
    (∀ w ∈ writes, w.Sized) ∧
      ((blank 4 3).writeAll writes).pixel? 0 0 = some .black ∧
      ((blank 4 3).writeAll writes).pixel? 0 1 = some .white ∧
      ((blank 4 3).writeAll writes).pixel? 3 2 = some .white := by
  intro writes
  have hsized : ∀ w ∈ writes, w.Sized := by simp [writes, Write.Sized, Mark.Sized]
  have fits : max (4 : Int32).toInt 0 * max (3 : Int32).toInt 0 < 2147483648 := by decide
  have hlast := (pixel_is_last_write fits writes hsized).1
  exact ⟨hsized, (hlast 0 0).trans (by decide), (hlast 0 1).trans (by decide),
    (hlast 3 2).trans (by decide)⟩

end Canvas

end PatternScript
