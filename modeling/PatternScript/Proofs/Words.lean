import PatternScript.Number.Binary

/-!
# Words as integers

A word of 32 bits is read as the integer it stands for. Order, minimum and maximum pass
through that reading always, sums, products and quotients as long as their integer value
fits a word.
-/
namespace PatternScript.Words

theorem le_iff {a b : Int32} : a ≤ b ↔ a.toInt ≤ b.toInt := Int32.le_iff_toInt_le

theorem lt_iff {a b : Int32} : a < b ↔ a.toInt < b.toInt := Int32.lt_iff_toInt_lt

theorem bounds (a : Int32) : -2147483648 ≤ a.toInt ∧ a.toInt < 2147483648 :=
  ⟨by simpa using a.le_toInt, by simpa using a.toInt_lt⟩

theorem toInt_ofInt_of_fits {n : Int} (h₁ : -2147483648 ≤ n) (h₂ : n < 2147483648) :
    (Int32.ofInt n).toInt = n :=
  Int32.toInt_ofInt_of_le (by simpa using h₁) (by simpa using h₂)

theorem toInt_max (a b : Int32) : (max a b).toInt = max a.toInt b.toInt := by
  change (if a ≤ b then b else a).toInt = _
  split
  next h => rw [le_iff] at h; omega
  next h => rw [le_iff] at h; omega

theorem toInt_min (a b : Int32) : (min a b).toInt = min a.toInt b.toInt := by
  change (if a ≤ b then a else b).toInt = _
  split
  next h => rw [le_iff] at h; omega
  next h => rw [le_iff] at h; omega

theorem bmod_of_fits {n : Int} (h₁ : -2147483648 ≤ n) (h₂ : n < 2147483648) :
    n.bmod 4294967296 = n :=
  Int.bmod_eq_of_le (by simpa using h₁) (by simpa using h₂)

theorem toInt_add_of_fits {a b : Int32} (h₁ : -2147483648 ≤ a.toInt + b.toInt)
    (h₂ : a.toInt + b.toInt < 2147483648) : (a + b).toInt = a.toInt + b.toInt := by
  rw [Int32.toInt_add, bmod_of_fits h₁ h₂]

theorem toInt_sub_of_fits {a b : Int32} (h₁ : -2147483648 ≤ a.toInt - b.toInt)
    (h₂ : a.toInt - b.toInt < 2147483648) : (a - b).toInt = a.toInt - b.toInt := by
  rw [Int32.toInt_sub, bmod_of_fits h₁ h₂]

theorem toInt_mul_of_fits {a b : Int32} (h₁ : -2147483648 ≤ a.toInt * b.toInt)
    (h₂ : a.toInt * b.toInt < 2147483648) : (a * b).toInt = a.toInt * b.toInt := by
  rw [Int32.toInt_mul, bmod_of_fits h₁ h₂]

theorem toInt_div_of_nonneg {a b : Int32} (ha : 0 ≤ a.toInt) (hb : 0 ≤ b.toInt) :
    (a / b).toInt = a.toInt / b.toInt := by
  have hle : a.toInt / b.toInt ≤ a.toInt := Int.ediv_le_self _ ha
  have hpos : 0 ≤ a.toInt / b.toInt := Int.ediv_nonneg ha hb
  have hlt := (bounds a).2
  rw [Int32.toInt_div, Int.tdiv_eq_ediv_of_nonneg ha, bmod_of_fits (by omega) (by omega)]

theorem mem_wordsBetween {lo hi x : Int32} :
    x ∈ wordsBetween lo hi ↔ lo.toInt ≤ x.toInt ∧ x.toInt < hi.toInt := by
  have hlo := bounds lo
  have hhi := bounds hi
  have hx := bounds x
  have toInt_at (k : Nat) (hk : (k : Int) < hi.toInt - lo.toInt) :
      (lo + Int32.ofNat k).toInt = lo.toInt + k := by
    rw [Int32.toInt_add, Int32.toInt_ofNat', Int.add_bmod_bmod, bmod_of_fits] <;> omega
  simp only [wordsBetween, List.mem_map, List.mem_range]
  constructor
  · intro h
    obtain ⟨k, hk, rfl⟩ := h
    rw [toInt_at k (by omega)]
    omega
  · intro h
    obtain ⟨h₁, h₂⟩ := h
    refine ⟨(x.toInt - lo.toInt).toNat, by omega, Int32.toInt_inj.1 ?_⟩
    rw [toInt_at _ (by omega)]
    omega

theorem toInt_row_add {w h x y : Int32} (hx : 0 ≤ x.toInt ∧ x.toInt < w.toInt)
    (hy : 0 ≤ y.toInt ∧ y.toInt < h.toInt) (fits : w.toInt * h.toInt < 2147483648) :
    (y * w).toInt = y.toInt * w.toInt ∧ (y * w + x).toInt = y.toInt * w.toInt + x.toInt ∧
      0 ≤ y.toInt * w.toInt ∧ y.toInt * w.toInt + x.toInt < w.toInt * h.toInt := by
  have hmul : (y.toInt + 1) * w.toInt ≤ h.toInt * w.toInt :=
    Int.mul_le_mul_of_nonneg_right (by omega) (by omega)
  have hnonneg : 0 ≤ y.toInt * w.toInt := Int.mul_nonneg hy.1 (by omega)
  rw [Int.add_mul, Int.one_mul, Int.mul_comm h.toInt] at hmul
  have hprod : (y * w).toInt = y.toInt * w.toInt := toInt_mul_of_fits (by omega) (by omega)
  have hsum : (y * w + x).toInt = y.toInt * w.toInt + x.toInt := by
    rw [toInt_add_of_fits, hprod] <;> omega
  exact ⟨hprod, hsum, hnonneg, by omega⟩

theorem toInt_place {w h x y : Int32} (hx : 0 ≤ x.toInt ∧ x.toInt < w.toInt)
    (hy : 0 ≤ y.toInt ∧ y.toInt < h.toInt) (fits : w.toInt * h.toInt < 2147483648) :
    ((y * w + x).toNatClampNeg : Int) = y.toInt * w.toInt + x.toInt ∧
      y.toInt * w.toInt + x.toInt < w.toInt * h.toInt := by
  obtain ⟨-, hsum, hnonneg, hlt⟩ := toInt_row_add hx hy fits
  refine ⟨?_, hlt⟩
  change (((y * w + x).toInt.toNat : Nat) : Int) = _
  rw [hsum, Int.toNat_of_nonneg (by omega)]

theorem place_injective {w x y x' y' : Int} (hx : 0 ≤ x ∧ x < w) (hx' : 0 ≤ x' ∧ x' < w)
    (h : y * w + x = y' * w + x') : x = x' ∧ y = y' := by
  have quot {a b : Int} (ha : 0 ≤ a ∧ a < w) : (b * w + a) / w = b := by
    rw [Int.add_comm, Int.add_mul_ediv_right _ _ (by omega), Int.ediv_eq_zero_of_lt ha.1 ha.2,
      Int.zero_add]
  have hy : y = y' :=
    calc y = (y * w + x) / w := (quot hx).symm
      _ = (y' * w + x') / w := by rw [h]
      _ = y' := quot hx'
  rw [hy] at h
  exact ⟨by omega, hy⟩

theorem toInt_saturatingAdd (a b : Int32) :
    (saturatingAdd a b).toInt = max (-2147483648) (min 2147483647 (a.toInt + b.toInt)) := by
  have hmin : Int32.minValue.toInt = -2147483648 := rfl
  have hmax : Int32.maxValue.toInt = 2147483647 := rfl
  rw [saturatingAdd, Int32.ofIntClamp]
  split
  next h₁ =>
    split
    next h₂ => rw [Int32.toInt_ofIntLE]; omega
    next h₂ => omega
  next h₁ => omega

end PatternScript.Words
