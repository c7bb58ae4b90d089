import PatternScript.Proofs.Doubles.Rounding

/-!
# Arithmetic on doubles

Sums, differences, products and quotients of finite doubles are the exact results, rounded.
-/
namespace PatternScript

open Float.Model Float.Model.UnpackedFloat

namespace Number

open Unpacked

variable {x y : Float} {q : ℚ}

theorem Nearest.of_eq (hx : x.isFinite = true) (h : value x = q) : Nearest x q := by
  refine ⟨hx, fun y _ => ?_, ?_⟩
  · rw [h, sub_self, abs_zero]
    exact abs_nonneg _
  · rw [h, sub_self, abs_zero]
    positivity

theorem Nearest.le_of_le (h : Nearest x q) (hy : y.isFinite = true) (hle : value y ≤ q) :
    value y ≤ value x := by
  have hclosest := h.closest y hy
  by_contra hlt
  rw [abs_of_neg (by linarith), abs_of_nonpos (by linarith)] at hclosest
  linarith

theorem Nearest.ge_of_ge (h : Nearest x q) (hy : y.isFinite = true) (hle : q ≤ value y) :
    value x ≤ value y := by
  have hclosest := h.closest y hy
  by_contra hlt
  rw [abs_of_pos (by linarith), abs_of_nonneg (by linarith)] at hclosest
  linarith

theorem Nearest.mono {p : ℚ} (h : Nearest x p) (h' : Nearest y q) (hlt : p < q) :
    value x ≤ value y := by
  by_contra hgt
  have hx := sq_le_sq.2 (h.closest y h'.isFinite)
  have hy := sq_le_sq.2 (h'.closest x h.isFinite)
  nlinarith [mul_pos (sub_pos.2 (not_le.1 hgt)) (sub_pos.2 hlt)]

theorem Nearest.eq_of_eq (h : Nearest x q) (hy : y.isFinite = true) (heq : value y = q) :
    value x = q :=
  le_antisymm (heq ▸ h.ge_of_ge hy heq.ge) (heq ▸ h.le_of_le hy heq.le)

theorem Rounded.nearest_of_isFinite (h : Rounded x q) (hx : x.isFinite = true) : Nearest x q := by
  refine h.resolve_right ?_
  rintro ⟨s, hinfinite, -⟩
  change x.toModel.unpack.isFinite = true at hx
  rw [hinfinite] at hx
  cases hx

theorem Rounded.nearest (h : Rounded x q) (hq : |q| < 2 ^ (1023 : Int)) : Nearest x q := by
  refine h.resolve_right ?_
  rintro ⟨s, -, hlarge⟩
  have hle := le_abs_self (signValue s * q)
  rw [abs_signValue_mul] at hle
  linarith

/-- What an operation makes of its exact result `q`, before it is put together: `q` itself, if it
has the form of a double, or else `q` rounded. -/
inductive RoundsTo (u : UnpackedFloat) (q : ℚ) : Prop
  | exact (hu : IsCanonical u) (hfinite : u.isFinite = true) (h : Unpacked.value u = q)
  | rounded (s : Sign) (a : ℚ) (t : Int) (k : Nat) (ha : 0 ≤ a) (hq : q = signValue s * a)
      (h : IsRounded u s a t k)

theorem RoundsTo.rounded_ofModel {u : UnpackedFloat} (h : RoundsTo u q) :
    Rounded (.ofModel (Float.Model.pack u)) q := by
  cases h with
  | exact hu hfinite h =>
    have hpack := unpack_pack hu
    refine Or.inl (Nearest.of_eq ?_ ?_)
    · change (Float.Model.pack u).unpack.isFinite = true
      rw [hpack, hfinite]
    · rw [value, hpack, h]
  | rounded s a t k ha hq h => exact hq ▸ Number.rounded_ofModel ha h

theorem roundsTo_normalize (n e : Int) :
    RoundsTo (UnpackedFloat.normalize Format.binary64 n e .positive) (n * 2 ^ e) := by
  rw [UnpackedFloat.normalize]
  rcases Int.lt_trichotomy n 0 with hneg | rfl | hpos
  · rw [Int.compare_eq_lt.2 hneg]
    obtain ⟨m, hm⟩ := Int.eq_ofNat_of_zero_le (show 0 ≤ -n by omega)
    obtain ⟨t, k, h⟩ := isRounded_round .negative (m := m) (by omega) e
    have hvalue : (n * 2 ^ e : ℚ) = signValue .negative * (m * 2 ^ e) := by
      rw [show n = -m by omega, signValue]
      push_cast
      ring
    rw [hvalue, hm, Int.toNat_natCast]
    exact .rounded _ _ t k (by positivity) rfl h
  · rw [Int.compare_eq_eq.2 rfl]
    exact .exact trivial rfl (by simp [Unpacked.value])
  · rw [Int.compare_eq_gt.2 hpos]
    obtain ⟨m, rfl⟩ := Int.eq_ofNat_of_zero_le hpos.le
    obtain ⟨t, k, h⟩ := isRounded_round .positive (m := m) (by omega) e
    have hvalue : ((m : Int) * 2 ^ e : ℚ) = signValue .positive * (m * 2 ^ e) := by
      rw [signValue, one_mul, Int.cast_natCast]
    rw [hvalue, Int.toNat_natCast]
    exact .rounded _ _ t k (by positivity) rfl h

theorem apply_decreaseExponent (s : Sign) (m : Nat) {e f : Int} (hle : f ≤ e) :
    ((s.apply (decreaseExponent m e f).1 : Int) * 2 ^ f : ℚ) = signValue s * (m * 2 ^ e) := by
  obtain ⟨d, hd⟩ := Int.eq_ofNat_of_zero_le (Int.sub_nonneg.2 hle)
  have hpow : (2 : ℚ) ^ e = 2 ^ d * 2 ^ f := by
    rw [← zpow_natCast, ← zpow_add₀ two_ne_zero, ← hd, sub_add_cancel]
  rw [decreaseExponent, hd, Int.toNat_natCast, Nat.shiftLeft_eq, hpow]
  cases s <;> simp [Sign.apply, signValue] <;> ring

theorem roundsTo_add {u v : UnpackedFloat} (hu : Finite u) (hv : Finite v) :
    RoundsTo (UnpackedFloat.add Format.binary64 u v)
      (Unpacked.value u + Unpacked.value v) := by
  rcases hu with s | ⟨s, m, e, hm, hc⟩ <;> rcases hv with s' | ⟨s', n, f, hn, hc'⟩
  · rw [Unpacked.value, Unpacked.value, add_zero]
    cases s <;> cases s' <;> exact .exact trivial rfl rfl
  · exact .exact (u := .finite s' n f hn) hc' rfl (zero_add _).symm
  · exact .exact (u := .finite s m e hm) hc rfl (add_zero _).symm
  · rw [UnpackedFloat.add, Unpacked.value, Unpacked.value,
      ← apply_decreaseExponent s m (min_le_left e f),
      ← apply_decreaseExponent s' n (min_le_right e f), ← add_mul, ← Int.cast_add]
    exact roundsTo_normalize _ _

theorem roundsTo_sub {u v : UnpackedFloat} (hu : Finite u) (hv : Finite v) :
    RoundsTo (UnpackedFloat.sub Format.binary64 u v)
      (Unpacked.value u - Unpacked.value v) := by
  rcases hu with s | ⟨s, m, e, hm, hc⟩ <;> rcases hv with s' | ⟨s', n, f, hn, hc'⟩
  · rw [Unpacked.value, Unpacked.value, sub_zero]
    cases s <;> cases s' <;> exact .exact trivial rfl rfl
  · refine .exact (u := .finite (-s') n f hn) hc' rfl ?_
    exact (value_unpacked_neg (.finite s' n f hn)).trans (zero_sub _).symm
  · exact .exact (u := .finite s m e hm) hc rfl (sub_zero _).symm
  · rw [UnpackedFloat.sub, Unpacked.value, Unpacked.value,
      ← apply_decreaseExponent s m (min_le_left e f),
      ← apply_decreaseExponent s' n (min_le_right e f), ← sub_mul, ← Int.cast_sub]
    exact roundsTo_normalize _ _

theorem signValue_mul (s s' : Sign) : signValue (s * s') = signValue s * signValue s' := by
  cases s <;> cases s'
  · exact (by norm_num : (1 : ℚ) = -1 * -1)
  · exact (by norm_num : (-1 : ℚ) = -1 * 1)
  · exact (by norm_num : (-1 : ℚ) = 1 * -1)
  · exact (by norm_num : (1 : ℚ) = 1 * 1)

theorem signValue_div (s s' : Sign) : signValue (s / s') = signValue s * signValue s' :=
  signValue_mul s s'

theorem le_target_mul {m n : Nat} {e f : Int} (hm : 0 < m) (hn : 0 < n) (h : Canonical m e)
    (h' : Canonical n f) :
    e + f ≤ Format.binary64.targetExponent (totalExponent (m * n) (e + f)) := by
  have hlog {k : Nat} {g : Int} (h : Canonical k g) : 52 ≤ k.log2 ∨ g = -1074 :=
    h.full.imp_left fun hfull => (Nat.le_log2 (by omega)).2 hfull
  have hlogs : max m.log2 n.log2 ≤ (m * n).log2 := by
    have hne : m * n ≠ 0 := Nat.mul_ne_zero hm.ne' hn.ne'
    refine max_le ((Nat.le_log2 hne).2 ?_) ((Nat.le_log2 hne).2 ?_)
    · exact (Nat.log2_self_le hm.ne').trans (Nat.le_mul_of_pos_right m hn)
    · exact (Nat.log2_self_le hn.ne').trans (Nat.le_mul_of_pos_left n hm)
  have h₁ := hlog h
  have h₂ := hlog h'
  rw [targetExponent_eq]
  omega

theorem roundsTo_mul {u v : UnpackedFloat} (hu : Finite u) (hv : Finite v) :
    RoundsTo (UnpackedFloat.mul Format.binary64 u v)
      (Unpacked.value u * Unpacked.value v) := by
  rcases hu with s | ⟨s, m, e, hm, hc⟩ <;> rcases hv with s' | ⟨s', n, f, hn, hc'⟩
  · exact .exact (u := .zero (s * s')) trivial rfl (zero_mul _).symm
  · exact .exact (u := .zero (s * s')) trivial rfl (zero_mul _).symm
  · exact .exact (u := .zero (s * s')) trivial rfl (mul_zero _).symm
  · have hproduct : (signValue s * (m * 2 ^ e)) * (signValue s' * (n * 2 ^ f)) =
        signValue (s * s') * ((m * n : Nat) * 2 ^ (e + f)) := by
      rw [signValue_mul, zpow_add₀ two_ne_zero]
      push_cast
      ring
    rw [UnpackedFloat.mul, Unpacked.value, Unpacked.value, hproduct]
    have htells : Tells .exact (m * n) (((m * n : Nat) : ℚ) * 2 ^ (e + f) / 2 ^ (e + f)) :=
      mul_div_cancel_right₀ _ (by positivity)
    obtain ⟨t, k, h⟩ :=
      isRounded_roundWithAccuracy (s * s') (le_target_mul hm hn hc hc') htells
    exact .rounded _ _ t k (by positivity) rfl h

theorem tells_div (m : Nat) {n : Nat} (hn : 0 < n) :
    Tells (accuracyOfFraction (m % n) n) (m / n) (m / n : ℚ) := by
  have hn' : (0 : ℚ) < n := by exact_mod_cast hn
  have hrest : (m % n : Nat) < (n : ℚ) := by exact_mod_cast Nat.mod_lt m hn
  have hsplit : (m / n : ℚ) = (m / n : Nat) + (m % n : Nat) / n := by
    rw [div_eq_iff hn'.ne', add_mul, div_mul_cancel₀ _ hn'.ne']
    exact_mod_cast (Nat.div_add_mod' m n).symm
  rw [accuracyOfFraction]
  split_ifs with hzero
  · change _ = _
    rw [hsplit, hzero, Nat.cast_zero, zero_div, add_zero]
  · have hpos : (0 : ℚ) < (m % n : Nat) / n := by
      have : (0 : ℚ) < (m % n : Nat) := by exact_mod_cast Nat.pos_of_ne_zero hzero
      positivity
    have hlt : ((m % n : Nat) / n : ℚ) < 1 := (div_lt_one hn').2 hrest
    refine ⟨⟨by linarith, by linarith⟩, ?_⟩
    have hhalf : compare (m / n : ℚ) ((m / n : Nat) + 1 / 2) =
        compare (2 * (m % n : Nat) : ℚ) n := by
      have hdiff : 2 * n * ((m / n : ℚ) - ((m / n : Nat) + 1 / 2)) = 2 * (m % n : Nat) - n := by
        rw [hsplit]
        field_simp
        ring
      have hfactor : (0 : ℚ) < 2 * n := by positivity
      rcases lt_trichotomy (m / n : ℚ) ((m / n : Nat) + 1 / 2) with hlt | heq | hgt
      · rw [compare_lt_iff_lt.2 hlt, compare_lt_iff_lt.2]
        have := mul_neg_of_pos_of_neg hfactor (sub_neg.2 hlt)
        linarith
      · rw [compare_eq_iff_eq.2 heq, compare_eq_iff_eq.2]
        rw [heq, sub_self, mul_zero] at hdiff
        linarith
      · rw [compare_gt_iff_gt.2 hgt, compare_gt_iff_gt.2]
        have := mul_pos hfactor (sub_pos.2 hgt)
        linarith
    rw [hhalf]
    rcases Nat.lt_trichotomy (2 * (m % n)) n with hlt | heq | hgt
    · rw [Nat.compare_eq_lt.2 hlt, compare_lt_iff_lt.2]
      exact_mod_cast hlt
    · rw [Nat.compare_eq_eq.2 heq, compare_eq_iff_eq.2]
      exact_mod_cast heq
    · rw [Nat.compare_eq_gt.2 hgt, compare_gt_iff_gt.2]
      exact_mod_cast hgt

theorem le_target_div {m n : Nat} {e f : Int} (hm : 0 < m) (hn : 0 < n) :
    (divCore Format.binary64 m e n f).2.1 ≤ Format.binary64.targetExponent
      (totalExponent (divCore Format.binary64 m e n f).1
        (divCore Format.binary64 m e n f).2.1) := by
  rw [targetExponent_eq]
  unfold divCore
  dsimp only
  have htarget : Format.binary64.targetExponent (totalExponent m e - totalExponent n f) =
      max (((m.log2 : Int) + 1 + e - (n.log2 + 1 + f)) - 53) (-1074) := rfl
  rw [htarget]
  generalize hT : min (e - f) (max (((m.log2 : Int) + 1 + e - (n.log2 + 1 + f)) - 53) (-1074)) = T
  generalize hd : (e - f - T).toNat = d
  rcases le_or_gt T (-1074) with hleast | hgreater
  · omega
  · have hlog : m.log2 + d - (n.log2 + 1) ≤ ((m <<< d) / n).log2 := by
      have hlow : 2 ^ (m.log2 + d - (n.log2 + 1)) ≤ (m <<< d) / n := by
        rw [Nat.le_div_iff_mul_le hn, Nat.shiftLeft_eq]
        calc 2 ^ (m.log2 + d - (n.log2 + 1)) * n
            ≤ 2 ^ (m.log2 + d - (n.log2 + 1)) * 2 ^ (n.log2 + 1) :=
              Nat.mul_le_mul_left _ Nat.lt_log2_self.le
          _ = 2 ^ (m.log2 + d) := by
              rw [← Nat.pow_add, Nat.sub_add_cancel (by omega)]
          _ ≤ m * 2 ^ d := by
              rw [Nat.pow_add]
              exact Nat.mul_le_mul_right _ (Nat.log2_self_le hm.ne')
      have hne : (m <<< d) / n ≠ 0 := Nat.ne_of_gt (Nat.lt_of_lt_of_le (Nat.two_pow_pos _) hlow)
      exact (Nat.le_log2 hne).2 hlow
    omega

theorem roundsTo_div {u v : UnpackedFloat} (hu : Finite u) (hv : Finite v)
    (hne : Unpacked.value v ≠ 0) :
    RoundsTo (UnpackedFloat.div Format.binary64 u v)
      (Unpacked.value u / Unpacked.value v) := by
  rcases hv with s' | ⟨s', n, f, hn, hc'⟩
  · exact absurd rfl hne
  rcases hu with s | ⟨s, m, e, hm, hc⟩
  · exact .exact (u := .zero (s / s')) trivial rfl (zero_div _).symm
  · have hquotient : (signValue s * (m * 2 ^ e)) / (signValue s' * (n * 2 ^ f)) =
        signValue (s / s') * (m * 2 ^ e / (n * 2 ^ f)) := by
      rw [signValue_div, mul_div_mul_comm, div_eq_mul_inv (signValue s)]
      cases s' <;> norm_num [signValue]
    have hT : (divCore Format.binary64 m e n f).2.1 ≤ e - f := min_le_left _ _
    have hcore : divCore Format.binary64 m e n f =
        let T := (divCore Format.binary64 m e n f).2.1
        let M := m <<< (e - f - T).toNat
        (M / n, T, accuracyOfFraction (M % n) n) := rfl
    have htarget := le_target_div (e := e) (f := f) hm hn
    rw [UnpackedFloat.div, Unpacked.value, Unpacked.value, hquotient]
    generalize (divCore Format.binary64 m e n f).2.1 = T at *
    obtain ⟨d, hd⟩ := Int.eq_ofNat_of_zero_le (Int.sub_nonneg.2 hT)
    dsimp only at hcore
    rw [hd, Int.toNat_natCast] at hcore
    rw [hcore] at htarget ⊢
    have hvalue : (m * 2 ^ e / (n * 2 ^ f) : ℚ) / 2 ^ T = ((m <<< d : Nat) : ℚ) / n := by
      have hpow : (2 : ℚ) ^ e = 2 ^ d * 2 ^ T * 2 ^ f := by
        rw [← zpow_natCast, ← zpow_add₀ two_ne_zero, ← zpow_add₀ two_ne_zero, ← hd]
        congr 1
        ring
      have hn' : (n : ℚ) ≠ 0 := by exact_mod_cast hn.ne'
      rw [Nat.shiftLeft_eq, hpow]
      push_cast
      field_simp
    have htells := tells_div (m <<< d) hn
    rw [← hvalue] at htells
    obtain ⟨t, k, h⟩ := isRounded_roundWithAccuracy (s / s') htarget htells
    exact .rounded _ _ t k (by positivity) rfl h

theorem not_isFinite_div (hx : x.isFinite = true) (hy : y.isFinite = true) (hzero : value y = 0) :
    (x / y).isFinite = false := by
  have hx' := finite_unpack hx
  have hy' := finite_unpack hy
  change Unpacked.value y.toModel.unpack = 0 at hzero
  change (Float.Model.pack
    (UnpackedFloat.div Format.binary64 x.toModel.unpack y.toModel.unpack)).unpack.isFinite = false
  generalize x.toModel.unpack = u at *
  generalize y.toModel.unpack = v at *
  rcases hy' with s' | ⟨s', n, f, hn, hc'⟩
  · have hinfinite (s : Sign) : (Float.Model.pack (.infinity s)).unpack = .infinity s :=
      unpack_pack trivial
    have hnone : (Float.Model.pack .notANumber).unpack = .notANumber := unpack_pack trivial
    rcases hx' with s | ⟨s, m, e, hm, hc⟩
    · rw [UnpackedFloat.div, hnone]
      rfl
    · rw [UnpackedFloat.div, hinfinite]
      rfl
  · have hpos := magnitude_pos hn f
    cases s' <;> rw [Unpacked.value, signValue] at hzero <;> linarith

theorem isFinite_of_sub (h : (x - y).isFinite = true) :
    x.isFinite = true ∧ y.isFinite = true := by
  change (Float.Model.pack
    (UnpackedFloat.sub Format.binary64 x.toModel.unpack y.toModel.unpack)).unpack.isFinite = true
    at h
  change x.toModel.unpack.isFinite = true ∧ y.toModel.unpack.isFinite = true
  have hinfinite (s : Sign) : (Float.Model.pack (.infinity s)).unpack = .infinity s :=
    unpack_pack trivial
  have hnone : (Float.Model.pack .notANumber).unpack = .notANumber := unpack_pack trivial
  generalize x.toModel.unpack = u at *
  generalize y.toModel.unpack = v at *
  rcases u with s | _ | _ | _ <;> rcases v with s' | _ | _ | _ <;>
    simp only [UnpackedFloat.sub] at h <;> (try split_ifs at h) <;>
    first
    | exact ⟨rfl, rfl⟩
    | (rw [hinfinite] at h; cases h)
    | (rw [hnone] at h; cases h)

theorem rounded_add (hx : x.isFinite = true) (hy : y.isFinite = true) :
    Rounded (x + y) (value x + value y) :=
  (roundsTo_add (finite_unpack hx) (finite_unpack hy)).rounded_ofModel

theorem rounded_sub (hx : x.isFinite = true) (hy : y.isFinite = true) :
    Rounded (x - y) (value x - value y) :=
  (roundsTo_sub (finite_unpack hx) (finite_unpack hy)).rounded_ofModel

theorem rounded_mul (hx : x.isFinite = true) (hy : y.isFinite = true) :
    Rounded (x * y) (value x * value y) :=
  (roundsTo_mul (finite_unpack hx) (finite_unpack hy)).rounded_ofModel

theorem rounded_div (hx : x.isFinite = true) (hy : y.isFinite = true) (hne : value y ≠ 0) :
    Rounded (x / y) (value x / value y) :=
  (roundsTo_div (finite_unpack hx) (finite_unpack hy) hne).rounded_ofModel

end Number

end PatternScript
