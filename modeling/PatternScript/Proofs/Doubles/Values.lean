import Mathlib

/-!
# What doubles stand for

A finite double stands for a rational number: its mantissa times a power of two, with its
sign. Mantissa and exponent are in one form only, with 53 bits or with the least exponent, so
a double can be taken apart and put together again, and comparing mantissas and exponents
compares the numbers.
-/
namespace PatternScript

open Float.Model Float.Model.UnpackedFloat

namespace Unpacked

structure Canonical (m : Nat) (e : Int) : Prop where
  short : m < 2 ^ 53
  least : -1074 ≤ e
  greatest : e ≤ 971
  full : 2 ^ 52 ≤ m ∨ e = -1074

def IsCanonical : UnpackedFloat → Prop
  | .finite _ m e _ => Canonical m e
  | .infinity _ | .notANumber | .zero _ => True

inductive Finite : UnpackedFloat → Prop
  | zero (s : Sign) : Finite (.zero s)
  | finite (s : Sign) (m : Nat) (e : Int) (hm : 0 < m) (h : Canonical m e) :
      Finite (.finite s m e hm)

def signValue : Sign → ℚ
  | .negative => -1
  | .positive => 1

def value : UnpackedFloat → ℚ
  | .finite s m e _ => signValue s * (m * 2 ^ e)
  | .infinity _ | .notANumber | .zero _ => 0

theorem value_unpacked_neg (u : UnpackedFloat) : value u.neg = -value u := by
  rcases u with _ | _ | _ | ⟨_ | _, m, e, hm⟩
  · exact neg_zero.symm
  · exact neg_zero.symm
  · exact neg_zero.symm
  · change (1 : ℚ) * _ = -(-1 * _)
    ring
  · change (-1 : ℚ) * _ = -(1 * _)
    ring

section Packing

variable {m : Nat} {e : Int} {s : Sign}

theorem toNat_leading (v : BitVec 52) : (1#1 ++ v).toNat = 2 ^ 52 + v.toNat := by
  have hv : v.toNat < 2 ^ 52 := v.isLt
  rw [BitVec.toNat_append, Nat.shiftLeft_eq]
  change 2 ^ 52 ||| v.toNat = _
  rw [Nat.or_comm, Nat.or_two_pow_eq_add_of_lt hv, Nat.add_comm]

theorem ofNat_ne_ofNat {a b : Nat} (ha : a < 2 ^ 11) (hb : b < 2 ^ 11) (h : a ≠ b) :
    BitVec.ofNat 11 a ≠ BitVec.ofNat 11 b := by
  intro heq
  have htoNat := congrArg BitVec.toNat heq
  rw [BitVec.toNat_ofNat, BitVec.toNat_ofNat, Nat.mod_eq_of_lt ha, Nat.mod_eq_of_lt hb] at htoNat
  exact h htoNat

theorem unpack_of_normal {b : BitVec Format.binary64.numBits} (hfull : unpackExponent b ≠ -1#11)
    (hzero : unpackExponent b ≠ 0#11) :
    UnpackedFloat.unpack Format.binary64 b =
      .finite (Sign.ofBitVec (unpackSign b)) (1#1 ++ (unpackMantissa b : BitVec 52)).toNat
        ((unpackExponent b).toNat - 1075) (by rw [toNat_leading]; omega) := by
  unfold UnpackedFloat.unpack
  dsimp only
  rw [if_neg hfull, if_neg hzero]
  rfl

theorem unpack_of_subnormal {b : BitVec Format.binary64.numBits} (hzero : unpackExponent b = 0#11)
    (hm : unpackMantissa b ≠ 0#52) (h : 0 < (unpackMantissa b).toNat) :
    UnpackedFloat.unpack Format.binary64 b =
      .finite (Sign.ofBitVec (unpackSign b)) (unpackMantissa b).toNat (-1074) h := by
  have hfull : unpackExponent b ≠ -1#11 := by rw [hzero]; decide
  have hleast : ((unpackExponent b).toNat : Int) - 1075 + 1 = -1074 := by rw [hzero]; rfl
  unfold UnpackedFloat.unpack
  dsimp only
  rw [if_neg hfull, if_pos hzero, dif_neg hm, UnpackedFloat.finite.injEq]
  exact ⟨rfl, rfl, hleast⟩

theorem isCanonical_unpack (b : BitVec Format.binary64.numBits) :
    IsCanonical (UnpackedFloat.unpack Format.binary64 b) := by
  have hexponent : (unpackExponent b).toNat < 2 ^ 11 := (unpackExponent b).isLt
  have hmantissa : (unpackMantissa b).toNat < 2 ^ 52 := (unpackMantissa b).isLt
  by_cases hfull : unpackExponent b = -1#11
  · unfold UnpackedFloat.unpack
    dsimp only
    rw [if_pos hfull]
    by_cases hnone : unpackMantissa b = 0#52
    · rw [if_pos hnone]
      trivial
    · rw [if_neg hnone]
      trivial
  by_cases hleast : unpackExponent b = 0#11
  · by_cases hzero : unpackMantissa b = 0#52
    · unfold UnpackedFloat.unpack
      dsimp only
      rw [if_neg hfull, if_pos hleast, dif_pos hzero]
      trivial
    · have hpos : 0 < (unpackMantissa b).toNat :=
        Nat.pos_of_ne_zero fun h => hzero (BitVec.eq_of_toNat_eq h)
      rw [unpack_of_subnormal hleast hzero hpos]
      change Canonical (unpackMantissa b).toNat (-1074)
      exact ⟨by omega, by omega, by omega, Or.inr rfl⟩
  · have hlow : (unpackExponent b).toNat ≠ 0 := fun h => hleast (BitVec.eq_of_toNat_eq h)
    have hhigh : (unpackExponent b).toNat ≠ 2047 := fun h => hfull (BitVec.eq_of_toNat_eq h)
    rw [unpack_of_normal hfull hleast]
    change Canonical (1#1 ++ (unpackMantissa b : BitVec 52)).toNat
      ((unpackExponent b).toNat - 1075)
    rw [toNat_leading]
    exact ⟨by omega, by omega, by omega, Or.inl (by omega)⟩

theorem unpackSign_packComponents (exponent : BitVec 11) (mantissa : BitVec 52) :
    unpackSign (packComponents Format.binary64 s exponent mantissa) = s.toBitVec := by
  change (s.toBitVec ++ exponent ++ mantissa).extractLsb' 63 1 = s.toBitVec
  rw [BitVec.extractLsb'_append_eq_of_le (by decide),
    BitVec.extractLsb'_append_eq_of_le (by decide)]
  cases s <;> rfl

theorem ofBitVec_toBitVec : Sign.ofBitVec s.toBitVec = s := by cases s <;> rfl

theorem unpack_normal {exponent : BitVec 11} {mantissa : BitVec 52} (hfull : exponent ≠ -1#11)
    (hzero : exponent ≠ 0#11) :
    UnpackedFloat.unpack Format.binary64 (packComponents Format.binary64 s exponent mantissa) =
      .finite s (1#1 ++ mantissa).toNat (exponent.toNat - 1075)
        (by rw [toNat_leading]; omega) := by
  rw [unpack_of_normal (by rwa [unpackExponent_packComponents])
    (by rwa [unpackExponent_packComponents]), UnpackedFloat.finite.injEq,
    unpackSign_packComponents, ofBitVec_toBitVec, unpackExponent_packComponents,
    unpackMantissa_packComponents]
  exact ⟨rfl, rfl, rfl⟩

theorem unpack_subnormal {mantissa : BitVec 52} (hm : mantissa ≠ 0#52) (h : 0 < mantissa.toNat) :
    UnpackedFloat.unpack Format.binary64 (packComponents Format.binary64 s 0#11 mantissa) =
      .finite s mantissa.toNat (-1074) h := by
  rw [unpack_of_subnormal unpackExponent_packComponents (by rwa [unpackMantissa_packComponents])
    (by rwa [unpackMantissa_packComponents]), UnpackedFloat.finite.injEq,
    unpackSign_packComponents, ofBitVec_toBitVec, unpackMantissa_packComponents]
  exact ⟨rfl, rfl, rfl⟩

theorem pack_finite (hm : 0 < m) (he : e ≤ 971) :
    UnpackedFloat.pack Format.binary64 (.finite s m e hm) =
      if m.log2 = 52 then
        packComponents Format.binary64 s (BitVec.ofNat 11 (e + 1075).toNat) (BitVec.ofNat 52 m)
      else packComponents Format.binary64 s 0#11 (BitVec.ofNat 52 m) := by
  change (if 2 ^ 11 ≤ (e + 1023 + 52).toNat + 1 then _
    else if m.log2 + 1 = 53 then packComponents Format.binary64 s
      (BitVec.ofNat 11 (e + 1023 + 52).toNat) (BitVec.ofNat 52 m) else _) = _
  rw [if_neg (by omega), Int.add_assoc]
  by_cases hlog : m.log2 = 52
  · rw [if_pos hlog, if_pos (by omega)]
    rfl
  · rw [if_neg hlog, if_neg (by omega)]

theorem unpack_pack_finite (hm : 0 < m) (h : Canonical m e) :
    (Float.Model.pack (.finite s m e hm)).unpack = .finite s m e hm := by
  have hshort := h.short
  have hleast := h.least
  have hgreatest := h.greatest
  change UnpackedFloat.unpack Format.binary64 (UnpackedFloat.pack _ _) = _
  rw [pack_finite hm hgreatest]
  by_cases hlog : m.log2 = 52
  · obtain ⟨hlow, -⟩ := (Nat.log2_eq_iff (Nat.ne_of_gt hm)).1 hlog
    have hfull : BitVec.ofNat 11 (e + 1075).toNat ≠ -1#11 :=
      ofNat_ne_ofNat (b := 2047) (by omega) (by decide) (by omega)
    have hzero : BitVec.ofNat 11 (e + 1075).toNat ≠ 0#11 :=
      ofNat_ne_ofNat (by omega) (by decide) (by omega)
    have hbiased : (e + 1075).toNat % 2 ^ 11 = (e + 1075).toNat := Nat.mod_eq_of_lt (by omega)
    rw [if_pos hlog, unpack_normal hfull hzero, UnpackedFloat.finite.injEq, toNat_leading,
      BitVec.toNat_ofNat, BitVec.toNat_ofNat, hbiased]
    exact ⟨rfl, by omega, by omega⟩
  · have hsmall : m < 2 ^ 52 := by
      by_contra hle
      exact hlog ((Nat.log2_eq_iff (Nat.ne_of_gt hm)).2 ⟨Nat.le_of_not_lt hle, hshort⟩)
    have hexp : e = -1074 := h.full.resolve_left (Nat.not_le.2 hsmall)
    have htoNat : (BitVec.ofNat 52 m).toNat = m := by
      rw [BitVec.toNat_ofNat, Nat.mod_eq_of_lt hsmall]
    have hne : BitVec.ofNat 52 m ≠ 0#52 := by
      intro heq
      rw [heq] at htoNat
      exact Nat.ne_of_lt hm htoNat
    rw [if_neg hlog, unpack_subnormal hne (by rw [htoNat]; exact hm), UnpackedFloat.finite.injEq]
    exact ⟨rfl, htoNat, hexp.symm⟩

theorem unpack_pack {u : UnpackedFloat} (h : IsCanonical u) : (Float.Model.pack u).unpack = u := by
  cases u with
  | infinity s => cases s <;> rfl
  | notANumber => rfl
  | zero s => cases s <;> rfl
  | finite s m e hm => exact unpack_pack_finite hm h

end Packing

section Order

variable {m n : Nat} {e f : Int} {u v : UnpackedFloat}

theorem magnitude_pos (hm : 0 < m) (e : Int) : (0 : ℚ) < m * 2 ^ e := by positivity

theorem magnitude_lt_of_lt (h : Canonical m e) (h' : Canonical n f) (hlt : e < f) :
    (m * 2 ^ e : ℚ) < n * 2 ^ f := by
  have hfull : 2 ^ 52 ≤ n := h'.full.resolve_right (by have := h.least; omega)
  calc (m * 2 ^ e : ℚ) < 2 ^ 53 * 2 ^ e := by gcongr; exact_mod_cast h.short
    _ = 2 ^ 52 * 2 ^ (e + 1) := by rw [zpow_add_one₀ (by norm_num)]; ring
    _ ≤ 2 ^ 52 * 2 ^ f := by gcongr <;> norm_num; omega
    _ ≤ n * 2 ^ f := by gcongr; exact_mod_cast hfull

theorem compare_magnitude (h : Canonical m e) (h' : Canonical n f) :
    (compare e f).then (compare m n) = compare (m * 2 ^ e : ℚ) (n * 2 ^ f) := by
  rcases Int.lt_trichotomy e f with hlt | heq | hgt
  · rw [Int.compare_eq_lt.2 hlt, compare_lt_iff_lt.2 (magnitude_lt_of_lt h h' hlt)]
    rfl
  · subst heq
    rw [Int.compare_eq_eq.2 rfl, Ordering.eq_then]
    have hpos : (0 : ℚ) < 2 ^ e := by positivity
    rcases Nat.lt_trichotomy m n with hlt | rfl | hgt
    · rw [Nat.compare_eq_lt.2 hlt]
      refine (compare_lt_iff_lt.2 ?_).symm
      gcongr
    · rw [Nat.compare_eq_eq.2 rfl, compare_eq_iff_eq.2 rfl]
    · rw [Nat.compare_eq_gt.2 hgt]
      refine (compare_gt_iff_gt.2 ?_).symm
      gcongr
  · rw [Int.compare_eq_gt.2 hgt, compare_gt_iff_gt.2 (magnitude_lt_of_lt h' h hgt)]
    rfl

theorem compare_neg_neg (a b : ℚ) : compare (-a) (-b) = (compare a b).swap := by
  rcases lt_trichotomy a b with hlt | rfl | hgt
  · rw [compare_lt_iff_lt.2 hlt, compare_gt_iff_gt.2 (neg_lt_neg hlt)]
    rfl
  · rw [compare_eq_iff_eq.2 rfl, compare_eq_iff_eq.2 rfl]
    rfl
  · rw [compare_gt_iff_gt.2 hgt, compare_lt_iff_lt.2 (neg_lt_neg hgt)]
    rfl

theorem value_negative (hm : 0 < m) : value (.finite .negative m e hm) = -(m * 2 ^ e) :=
  neg_one_mul _

theorem value_positive (hm : 0 < m) : value (.finite .positive m e hm) = m * 2 ^ e :=
  one_mul _

theorem compare_eq (hu : u.isFinite = true) (hv : v.isFinite = true) (hcu : IsCanonical u)
    (hcv : IsCanonical v) : u.compare v = some (compare (value u) (value v)) := by
  rcases u with s | _ | s | ⟨_ | _, m, e, hm⟩ <;> try cases hu
  all_goals rcases v with t | _ | t | ⟨_ | _, n, f, hn⟩ <;> try cases hv
  all_goals try have hm' := magnitude_pos hm e
  all_goals try have hn' := magnitude_pos hn f
  all_goals refine congrArg some ?_
  · exact (compare_eq_iff_eq.2 rfl).symm
  · rw [value_negative hn]
    exact (compare_gt_iff_gt.2 (neg_neg_of_pos hn')).symm
  · rw [value_positive hn]
    exact (compare_lt_iff_lt.2 hn').symm
  · rw [value_negative hm]
    exact (compare_lt_iff_lt.2 (neg_neg_of_pos hm')).symm
  · rw [value_negative hm, value_negative hn, compare_neg_neg]
    exact congrArg Ordering.swap (compare_magnitude hcu hcv)
  · rw [value_negative hm, value_positive hn]
    exact (compare_lt_iff_lt.2 (by linarith)).symm
  · rw [value_positive hm]
    exact (compare_gt_iff_gt.2 hm').symm
  · rw [value_positive hm, value_negative hn]
    exact (compare_gt_iff_gt.2 (by linarith)).symm
  · rw [value_positive hm, value_positive hn]
    exact compare_magnitude hcu hcv

end Order

end Unpacked

namespace Number

variable {x y lo hi : Float}

/-- The number that a finite double stands for. -/
def value (x : Float) : ℚ := Unpacked.value x.toModel.unpack

theorem isCanonical (x : Float) : Unpacked.IsCanonical x.toModel.unpack :=
  Unpacked.isCanonical_unpack _

theorem finite_unpack (hx : x.isFinite = true) : Unpacked.Finite x.toModel.unpack := by
  have h := isCanonical x
  change x.toModel.unpack.isFinite = true at hx
  generalize x.toModel.unpack = u at *
  rcases u with _ | _ | s | ⟨s, m, e, hm⟩
  · cases hx
  · cases hx
  · exact .zero s
  · exact .finite s m e hm h

theorem compare_eq (hx : x.isFinite = true) (hy : y.isFinite = true) :
    x.toModel.unpack.compare y.toModel.unpack = some (compare (value x) (value y)) :=
  Unpacked.compare_eq hx hy (isCanonical x) (isCanonical y)

theorem lt_def : x < y ↔ (x.toModel.unpack.compare y.toModel.unpack == some .lt) = true :=
  decide_eq_true_iff

theorem le_def : x ≤ y ↔ (x.toModel.unpack.compare y.toModel.unpack).any (·.isLE) = true :=
  decide_eq_true_iff

theorem lt_iff (hx : x.isFinite = true) (hy : y.isFinite = true) :
    x < y ↔ value x < value y := by
  rw [lt_def, compare_eq hx hy, beq_iff_eq, Option.some.injEq, compare_lt_iff_lt]

theorem le_iff (hx : x.isFinite = true) (hy : y.isFinite = true) :
    x ≤ y ↔ value x ≤ value y := by
  rw [le_def, compare_eq hx hy, Option.any_some, Ordering.isLE_iff_ne_gt]
  exact (not_congr compare_gt_iff_gt).trans not_lt

theorem beq_iff (hx : x.isFinite = true) (hy : y.isFinite = true) :
    (x == y) = true ↔ value x = value y := by
  change (x.toModel.unpack.compare y.toModel.unpack == some .eq) = true ↔ _
  rw [compare_eq hx hy, beq_iff_eq, Option.some.injEq, compare_eq_iff_eq]

theorem isFinite_of_between (hlo : lo.isFinite = true) (hhi : hi.isFinite = true) (hle : lo ≤ x)
    (hlt : x < hi) : x.isFinite = true := by
  rw [le_def] at hle
  rw [lt_def] at hlt
  change x.toModel.unpack.isFinite = true
  rcases hx : x.toModel.unpack with (_ | _) | _ | _ | _
  · rw [hx] at hle
    change lo.toModel.unpack.isFinite = true at hlo
    rcases hlo' : lo.toModel.unpack with _ | _ | _ | ⟨_ | _, _⟩ <;> rw [hlo'] at hle hlo <;>
      first | cases hle | cases hlo
  · rw [hx] at hlt
    change hi.toModel.unpack.isFinite = true at hhi
    rcases hhi' : hi.toModel.unpack with _ | _ | _ | ⟨_ | _, _⟩ <;> rw [hhi'] at hlt hhi <;>
      first | cases hlt | cases hhi
  · rw [hx] at hlt
    cases hlt
  · rfl
  · rfl

theorem unpack_neg (x : Float) : (-x).toModel.unpack = x.toModel.unpack.neg := by
  have h := isCanonical x
  change (Float.Model.pack x.toModel.unpack.neg).unpack = _
  refine Unpacked.unpack_pack ?_
  rcases hx : x.toModel.unpack with _ | _ | _ | _
  · trivial
  · trivial
  · trivial
  · rwa [hx] at h

theorem unpack_abs (x : Float) : x.abs.toModel.unpack = x.toModel.unpack.abs := by
  have h := isCanonical x
  change (Float.Model.pack x.toModel.unpack.abs).unpack = _
  refine Unpacked.unpack_pack ?_
  rcases hx : x.toModel.unpack with _ | _ | _ | _
  · trivial
  · trivial
  · trivial
  · rwa [hx] at h

@[simp]
theorem isFinite_neg (x : Float) : (-x).isFinite = x.isFinite := by
  change (-x).toModel.unpack.isFinite = x.toModel.unpack.isFinite
  rw [unpack_neg]
  cases x.toModel.unpack <;> rfl

@[simp]
theorem isFinite_abs (x : Float) : x.abs.isFinite = x.isFinite := by
  change x.abs.toModel.unpack.isFinite = x.toModel.unpack.isFinite
  rw [unpack_abs]
  cases x.toModel.unpack <;> rfl

@[simp]
theorem value_neg (x : Float) : value (-x) = -value x := by
  rw [value, value, unpack_neg, Unpacked.value_unpacked_neg]

@[simp]
theorem value_abs (x : Float) : value x.abs = |value x| := by
  rw [value, value, unpack_abs]
  rcases x.toModel.unpack with _ | _ | _ | ⟨_ | _, m, e, hm⟩
  · exact abs_zero.symm
  · exact abs_zero.symm
  · exact abs_zero.symm
  · change (1 : ℚ) * _ = |-1 * _|
    rw [one_mul, neg_one_mul, abs_neg, abs_of_pos (Unpacked.magnitude_pos hm e)]
  · change (1 : ℚ) * _ = |1 * _|
    rw [one_mul, abs_of_pos (Unpacked.magnitude_pos hm e)]

theorem isFinite_of_abs_lt (h : x.abs < y) : x.isFinite = true := by
  rw [lt_def, unpack_abs] at h
  change x.toModel.unpack.isFinite = true
  generalize x.toModel.unpack = u at *
  generalize y.toModel.unpack = v at *
  rcases u with _ | _ | _ | _
  · rcases v with (_ | _) | _ | _ | _ <;> cases h
  · cases h
  · rfl
  · rfl

end Number

end PatternScript
