import Mathlib.Data.Rat.Floor
import PatternScript.Proofs.Doubles.Whole
import PatternScript.Number.Binary

/-!
# Doubles rounded to whole numbers

Taking a double apart bit by bit gives the number that it stands for, so the shifts that
round it are the floor, the ceiling and the nearest whole number of that number.
-/
namespace PatternScript

open Float.Model Float.Model.UnpackedFloat

namespace Binary

variable {x : Float}

def packed (x : Float) : BitVec Format.binary64.numBits := x.toBits.toBitVec

theorem field_eq (x : Float) :
    (x.toBits >>> 52 &&& 0x7FF).toNat = (unpackExponent (packed x)).toNat := by
  have hbits : (unpackExponent (packed x)).toNat = x.toBits.toNat >>> 52 % 2 ^ 11 := rfl
  rw [hbits, UInt64.toNat_and, UInt64.toNat_shiftRight]
  exact Nat.and_two_pow_sub_one_eq_mod _ 11

theorem fraction_eq (x : Float) :
    (x.toBits &&& 0xFFFFFFFFFFFFF).toNat = (unpackMantissa (packed x)).toNat := by
  have hbits : (unpackMantissa (packed x)).toNat = x.toBits.toNat >>> 0 % 2 ^ 52 := rfl
  rw [hbits, UInt64.toNat_and]
  exact Nat.and_two_pow_sub_one_eq_mod _ 52

theorem signValue_eq (x : Float) : Unpacked.signValue (Sign.ofBitVec (unpackSign (packed x))) =
    if x.toBits >>> 63 == 1 then -1 else 1 := by
  have hbound : x.toBits.toNat < 2 ^ 64 := x.toBits.toBitVec.isLt
  have hbits : (unpackSign (packed x)).toNat = x.toBits.toNat >>> 63 % 2 ^ 1 := rfl
  have hshift : (x.toBits >>> 63).toNat = x.toBits.toNat >>> 63 := UInt64.toNat_shiftRight _ _
  rw [Nat.shiftRight_eq_div_pow] at hbits hshift
  have hzero : unpackSign (packed x) = 0#1 ↔ (unpackSign (packed x)).toNat = 0 :=
    BitVec.toNat_inj.symm
  have hone : (x.toBits >>> 63 == 1) = true ↔ (x.toBits >>> 63).toNat = 1 := by
    rw [beq_iff_eq, ← UInt64.toNat_inj]
    rfl
  rw [Sign.ofBitVec]
  simp only [hzero, hone]
  by_cases h : x.toBits.toNat / 2 ^ 63 = 1
  · rw [if_neg (by omega), if_pos (by omega)]
    rfl
  · rw [if_pos (by omega), if_neg (by omega)]
    rfl

theorem ofFloat_eq (hx : x.isFinite = true) : ∃ negative m e, ofFloat x = finite negative m e ∧
    Number.value x = (if negative then -1 else 1) * (m * 2 ^ e) := by
  have hsign := signValue_eq x
  change (UnpackedFloat.unpack Format.binary64 (packed x)).isFinite = true at hx
  have hvalue : Number.value x =
      Unpacked.value (UnpackedFloat.unpack Format.binary64 (packed x)) := rfl
  rw [hvalue, ofFloat]
  rw [field_eq, fraction_eq]
  generalize (x.toBits >>> 63 == 1) = negative at *
  unfold UnpackedFloat.unpack at hx ⊢
  dsimp only at hx ⊢
  have hfull : unpackExponent (packed x) = -1#11 ↔ (unpackExponent (packed x)).toNat = 0x7FF :=
    BitVec.toNat_inj.symm
  have hleast : unpackExponent (packed x) = 0#11 ↔ (unpackExponent (packed x)).toNat = 0 :=
    BitVec.toNat_inj.symm
  have hnone : unpackMantissa (packed x) = 0#52 ↔ (unpackMantissa (packed x)).toNat = 0 :=
    BitVec.toNat_inj.symm
  by_cases h₁ : unpackExponent (packed x) = -1#11
  · rw [if_pos h₁] at hx
    split_ifs at hx <;> cases hx
  rw [if_neg h₁, if_neg (mt hfull.2 h₁)]
  by_cases h₂ : unpackExponent (packed x) = 0#11
  · rw [if_pos h₂, if_pos (hleast.1 h₂)]
    refine ⟨negative, _, _, rfl, ?_⟩
    by_cases h₃ : unpackMantissa (packed x) = 0#52
    · rw [dif_pos h₃, hnone.1 h₃, Unpacked.value]
      simp
    · rw [dif_neg h₃, Unpacked.value, hsign, hleast.1 h₂]
      rfl
  · rw [if_neg h₂, if_neg (mt hleast.2 h₂)]
    refine ⟨negative, _, _, rfl, ?_⟩
    have hleading := Unpacked.toNat_leading (unpackMantissa (packed x))
    rw [Unpacked.value, hsign, hleading, Nat.shiftLeft_eq]
    congr 3
    push_cast
    ring

theorem isFinite_of_ofFloat {negative : Bool} {m : Nat} {e : Int}
    (h : ofFloat x = finite negative m e) : x.isFinite = true := by
  have hfull : unpackExponent (packed x) = -1#11 ↔ (unpackExponent (packed x)).toNat = 0x7FF :=
    BitVec.toNat_inj.symm
  rw [ofFloat, field_eq] at h
  by_cases hexponent : (unpackExponent (packed x)).toNat = 0x7FF
  · rw [if_pos hexponent] at h
    split_ifs at h
  · change (UnpackedFloat.unpack Format.binary64 (packed x)).isFinite = true
    unfold UnpackedFloat.unpack
    dsimp only
    rw [if_neg (mt hfull.1 hexponent)]
    split_ifs <;> rfl

section Shifts

variable (m : Nat) (e : Int)

theorem whole_eq : (whole m e : Int) = ⌊(m * 2 ^ e : ℚ)⌋ := by
  rw [whole]
  split_ifs with he
  · obtain ⟨k, rfl⟩ := Int.eq_ofNat_of_zero_le he
    rw [Int.toNat_natCast, Nat.shiftLeft_eq, zpow_natCast]
    exact_mod_cast (Int.floor_intCast ((m * 2 ^ k : Nat) : Int)).symm
  · obtain ⟨k, hk⟩ := Int.eq_ofNat_of_zero_le (show 0 ≤ -e by omega)
    have hpow : (2 : ℚ) ^ e = (2 ^ k)⁻¹ := by
      rw [← zpow_natCast, ← zpow_neg, ← hk, neg_neg]
    rw [hk, Int.toNat_natCast, Nat.shiftRight_eq_div_pow, hpow, ← div_eq_mul_inv]
    have hfloor := Rat.floor_intCast_div_natCast m (2 ^ k)
    push_cast at hfloor ⊢
    exact hfloor.symm

theorem isWhole_iff : isWhole m e = true ↔ (m * 2 ^ e : ℚ) = ⌊(m * 2 ^ e : ℚ)⌋ := by
  rw [← whole_eq, isWhole, whole, Bool.or_eq_true, decide_eq_true_iff, beq_iff_eq]
  by_cases he : 0 ≤ e
  · obtain ⟨k, rfl⟩ := Int.eq_ofNat_of_zero_le he
    rw [if_pos he]
    refine iff_of_true (Or.inl he) ?_
    rw [Int.toNat_natCast, Nat.shiftLeft_eq]
    push_cast
    rfl
  · obtain ⟨k, hk⟩ := Int.eq_ofNat_of_zero_le (show 0 ≤ -e by omega)
    have hpow : (2 : ℚ) ^ e = (2 ^ k)⁻¹ := by
      rw [← zpow_natCast, ← zpow_neg, ← hk, neg_neg]
    rw [if_neg he, hk, Int.toNat_natCast, hpow, ← div_eq_mul_inv, div_eq_iff (by positivity),
      Nat.shiftLeft_eq]
    constructor
    · rintro (h | h)
      · omega
      · exact_mod_cast h.symm
    · intro h
      exact Or.inr (by exact_mod_cast h.symm)

theorem whole_add_eq :
    ((whole m e + (if isWhole m e then 0 else 1) : Nat) : Int) = ⌈(m * 2 ^ e : ℚ)⌉ := by
  have hfloor := whole_eq m e
  symm
  rw [Int.ceil_eq_iff, Nat.cast_add, hfloor]
  by_cases h : isWhole m e = true
  · have heq := (isWhole_iff m e).1 h
    rw [if_pos h]
    push_cast
    constructor <;> linarith
  · have hne := fun heq => h ((isWhole_iff m e).2 heq)
    have hle := Int.floor_le (m * 2 ^ e : ℚ)
    have hlt := lt_of_le_of_ne hle (Ne.symm hne)
    have hup := Int.lt_floor_add_one (m * 2 ^ e : ℚ)
    rw [if_neg h]
    push_cast
    constructor <;> linarith

theorem whole_add_one_of_neg {e : Int} (he : e < 0) :
    whole m (e + 1) = m >>> ((-e).toNat - 1) := by
  rw [whole]
  split_ifs with hzero
  · rw [show e + 1 = 0 by omega, show (-e).toNat - 1 = 0 by omega]
    rfl
  · rw [show (-(e + 1)).toNat = (-e).toNat - 1 by omega]

theorem nearest_eq : (nearest m e : Int) = ⌊(m * 2 ^ e + 1 / 2 : ℚ)⌋ := by
  rw [nearest]
  split_ifs with he
  · have hfloor := whole_eq m e
    have hwhole := (isWhole_iff m e).1 (by rw [isWhole, decide_eq_true he, Bool.true_or])
    rw [whole, if_pos he] at hfloor
    rw [hfloor, eq_comm, Int.floor_eq_iff, ← hwhole]
    constructor <;> linarith
  · -- One bit more is kept, so that adding one to it rounds a half up.
    have hdouble := whole_eq m (e + 1)
    rw [whole_add_one_of_neg m (by omega)] at hdouble
    have hpow : (m * 2 ^ (e + 1) : ℚ) = 2 * (m * 2 ^ e) := by
      rw [zpow_add_one₀ two_ne_zero]
      ring
    rw [hpow] at hdouble
    obtain ⟨hlow, hhigh⟩ := Int.floor_eq_iff.1 hdouble.symm
    rw [Nat.shiftRight_eq_div_pow, pow_one, eq_comm, Int.floor_eq_iff]
    generalize m >>> ((-e).toNat - 1) = w at *
    have hsplit : (2 * ((w + 1) / 2 : Nat) + ((w + 1) % 2 : Nat) : ℚ) = w + 1 := by
      exact_mod_cast Nat.div_add_mod (w + 1) 2
    have hrest : (((w + 1) % 2 : Nat) : ℚ) ≤ 1 := by
      exact_mod_cast Nat.le_of_lt_succ (Nat.mod_lt (w + 1) two_pos)
    have hrest' : (0 : ℚ) ≤ ((w + 1) % 2 : Nat) := Nat.cast_nonneg _
    generalize (w + 1) / 2 = half at *
    generalize (w + 1) % 2 = rest at *
    rw [Int.cast_natCast] at hlow hhigh ⊢
    constructor <;> linarith

end Shifts

end Binary

namespace Rounding

def whole (r : Rounding) (v : ℚ) : Int :=
  match r with
  | down => ⌊v⌋
  | up => ⌈v⌉
  | toZero => if 0 ≤ v then ⌊v⌋ else ⌈v⌉
  | nearest => if 0 ≤ v then ⌊v + 1 / 2⌋ else ⌈v - 1 / 2⌉

variable {r : Rounding} {x : Float} {v w : ℚ} {lo hi : Int}

theorem integer_eq (r : Rounding) (negative : Bool) (m : Nat) (e : Int) :
    r.integer negative m e = r.whole ((if negative then -1 else 1) * (m * 2 ^ e)) := by
  have hpos : (0 : ℚ) ≤ m * 2 ^ e := by positivity
  have hdown := Binary.whole_eq m e
  have hup := Binary.whole_add_eq m e
  have hnearest := Binary.nearest_eq m e
  cases negative with
  | false =>
    rw [integer, if_neg Bool.false_ne_true, if_neg Bool.false_ne_true, one_mul]
    cases r with
    | down => exact hdown
    | up => exact hup
    | toZero => exact hdown.trans (if_pos hpos).symm
    | nearest => exact hnearest.trans (if_pos hpos).symm
  | true =>
    rw [integer, if_pos rfl, if_pos rfl, neg_one_mul]
    cases r with
    | down =>
      change -((_ : Nat) : Int) = ⌊-_⌋
      rw [Int.floor_neg, ← hup]
      rfl
    | up =>
      change -((_ : Nat) : Int) = ⌈-_⌉
      rw [Int.ceil_neg, ← hdown]
      rfl
    | toZero =>
      refine (congrArg Neg.neg hdown).trans ?_
      rw [whole]
      split_ifs with hzero
      · rw [le_antisymm (neg_nonneg.1 hzero) hpos]
        norm_num
      · exact Int.ceil_neg.symm
    | nearest =>
      refine (congrArg Neg.neg hnearest).trans ?_
      rw [whole]
      split_ifs with hzero
      · rw [le_antisymm (neg_nonneg.1 hzero) hpos]
        norm_num
      · rw [← neg_add', Int.ceil_neg]

theorem within_eq (hx : x.isFinite = true) :
    r.within lo hi x = max lo (min hi (r.whole (Number.value x))) := by
  obtain ⟨negative, m, e, heq, hvalue⟩ := Binary.ofFloat_eq hx
  rw [within, heq, hvalue, ← integer_eq]

theorem toWord64_eq (hx : x.isFinite = true) (hlow : -2 ^ 63 ≤ r.whole (Number.value x))
    (hhigh : r.whole (Number.value x) < 2 ^ 63) : r.toWord64 x = r.whole (Number.value x) := by
  rw [toWord64, within_eq hx]
  omega

theorem toInt_toInt32 (hx : x.isFinite = true) : (r.toInt32 x).toInt =
    max (-2147483648) (min 2147483647 (r.whole (Number.value x))) := by
  rw [toInt32, within_eq hx, Words.toInt_ofInt_of_fits (by omega) (by omega)]

theorem whole_intCast (r : Rounding) (n : Int) : r.whole n = n := by
  cases r with
  | down => exact Int.floor_intCast n
  | up => exact Int.ceil_intCast n
  | toZero =>
    rw [whole, Int.floor_intCast, Int.ceil_intCast, ite_self]
  | nearest =>
    rw [whole]
    split_ifs
    · rw [Int.floor_intCast_add]
      norm_num
    · rw [Int.ceil_eq_iff]
      constructor <;> linarith

theorem whole_mono (r : Rounding) (h : v ≤ w) : r.whole v ≤ r.whole w := by
  cases r with
  | down => exact Int.floor_mono h
  | up => exact Int.ceil_mono h
  | toZero =>
    rw [whole, whole]
    split_ifs with hv hw hw
    · exact Int.floor_mono h
    · linarith
    · exact (Int.ceil_le.2 (by push_cast; linarith)).trans (Int.floor_nonneg.2 hw)
    · exact Int.ceil_mono h
  | nearest =>
    rw [whole, whole]
    split_ifs with hv hw hw
    · exact Int.floor_mono (by linarith)
    · linarith
    · exact (Int.ceil_le.2 (by push_cast; linarith)).trans (Int.floor_nonneg.2 (by linarith))
    · exact Int.ceil_mono (by linarith)

theorem abs_whole_nearest_sub_le (v : ℚ) : |(nearest.whole v : ℚ) - v| ≤ 1 / 2 := by
  rw [whole, abs_le]
  split_ifs with hv
  · have hlow := Int.floor_le (v + 1 / 2)
    have hhigh := Int.lt_floor_add_one (v + 1 / 2)
    constructor <;> linarith
  · have hlow := Int.le_ceil (v - 1 / 2)
    have hhigh := Int.ceil_lt_add_one (v - 1 / 2)
    constructor <;> linarith

theorem isFinite_and_value_float (hx : x.isFinite = true)
    (h : |r.whole (Number.value x)| < 2 ^ 53) :
    (r.float x).isFinite = true ∧ Number.value (r.float x) = r.whole (Number.value x) := by
  obtain ⟨negative, m, e, heq, hvalue⟩ := Binary.ofFloat_eq hx
  have hinteger := integer_eq r negative m e
  rw [← hvalue] at hinteger
  rw [← hinteger] at h ⊢
  rw [float, heq]
  have hmagnitude : r.magnitude negative m e < 2 ^ 53 := by
    rw [integer] at h
    split_ifs at h <;> simp at h <;> exact_mod_cast h
  obtain ⟨hfinite, hwhole⟩ := Number.isFinite_and_value_ofNat hmagnitude
  cases negative with
  | false => exact ⟨hfinite, hwhole.trans (by rw [integer]; simp)⟩
  | true =>
    refine ⟨(Number.isFinite_neg _).trans hfinite, (Number.value_neg _).trans ?_⟩
    rw [hwhole, integer]
    simp

end Rounding

namespace Number

variable {x : Float}

theorem isWhole_iff (hx : x.isFinite = true) : isWhole x = true ↔ ∃ n : Int, value x = n := by
  obtain ⟨negative, m, e, heq, hvalue⟩ := Binary.ofFloat_eq hx
  rw [isWhole, heq, hvalue]
  change Binary.isWhole m e = true ↔ _
  rw [Binary.isWhole_iff]
  constructor
  · intro h
    cases negative with
    | false => exact ⟨_, (one_mul _).trans h⟩
    | true => exact ⟨-⌊(m * 2 ^ e : ℚ)⌋, by rw [Int.cast_neg, ← h]; exact neg_one_mul _⟩
  · rintro ⟨n, hn⟩
    cases negative with
    | false =>
      have hn' : (m * 2 ^ e : ℚ) = n := (one_mul _).symm.trans hn
      rw [hn', Int.floor_intCast]
    | true =>
      have hn' : (m * 2 ^ e : ℚ) = (-n : Int) := by
        have : -1 * (m * 2 ^ e : ℚ) = n := hn
        push_cast
        linarith
      rw [hn', Int.floor_intCast]

theorem isFinite_of_isWhole (h : isWhole x = true) : x.isFinite = true := by
  rw [isWhole] at h
  split at h
  · exact Binary.isFinite_of_ofFloat ‹_›
  · cases h
  · cases h

end Number

end PatternScript
