import Mathlib.Data.Nat.ModEq
import PatternScript.Text.Basic
import PatternScript.Text.UpperCase

/-!
# Upper case twice

No letter that stands in a capital form has a capital form other than itself, so upper case
of upper case is upper case. The tables of the letters beyond ASCII are gone through once,
here. A run of letters is compared with another by the ends of the two and not letter by
letter.
-/
namespace PatternScript.Text

structure IsCapital (n : Nat) : Prop where
  ascii : n < 97 ∨ 122 < n
  long : ∀ p ∈ longUpper, p.1 ≠ n
  runs : ∀ r ∈ caseRuns, r.covers n = false

/-- What holds of every number that the tables give. None of them is a blank or stands for a
sign that a line is cut at. -/
structure IsCapitalForm (n : Nat) : Prop extends IsCapital n where
  letter : 65 ≤ n
  valid : n.isValidChar

theorem toNat_toUpper (c : Char) :
    c.toUpper.toNat = if 97 ≤ c.toNat ∧ c.toNat ≤ 122 then c.toNat - 32 else c.toNat := by
  have hsmall : ('a'.val ≤ c.val ∧ c.val ≤ 'z'.val) ↔ (97 ≤ c.toNat ∧ c.toNat ≤ 122) := Iff.rfl
  delta Char.toUpper
  split
  next h =>
    have hshift : ('A'.val - 'a'.val).toNat = 4294967264 := by decide
    have hnat : c.toNat = c.val.toNat := rfl
    have hrange := hsmall.1 h
    rw [if_pos hrange]
    change (c.val + ('A'.val - 'a'.val)).toNat = _
    rw [UInt32.toNat_add, hshift]
    omega
  next h => rw [if_neg (mt hsmall.2 h)]

theorem isAlpha_iff {c : Char} : c.isAlpha = true ↔
    65 ≤ c.toNat ∧ c.toNat ≤ 90 ∨ 97 ≤ c.toNat ∧ c.toNat ≤ 122 := by
  have hletter : c.isAlpha = (decide (c.val ≥ 'A'.val ∧ c.val ≤ 'Z'.val) ||
      (decide (c.val ≥ 'a'.val) && decide (c.val ≤ 'z'.val))) := rfl
  simp only [hletter, Bool.or_eq_true, Bool.and_eq_true,
    decide_eq_true_eq, UInt32.le_iff_toNat_le, ge_iff_le]
  exact Iff.rfl

theorem isDigit_iff {c : Char} : c.isDigit = true ↔ 48 ≤ c.toNat ∧ c.toNat ≤ 57 := by
  simp only [Char.isDigit, Bool.and_eq_true, decide_eq_true_eq, UInt32.le_iff_toNat_le,
    ge_iff_le]
  exact Iff.rfl

theorem toUpper_of_not_small {c : Char} (h : c.toNat < 97 ∨ 122 < c.toNat) : c.toUpper = c := by
  rw [← Char.toNat_inj, toNat_toUpper, if_neg (by omega)]

theorem upperChar_of_isCapital {c : Char} (h : IsCapital c.toNat) : upperChar c = [c] := by
  have hlong : longUpper.lookup c.toNat = none := by
    rw [List.lookup_eq_none_iff]
    intro p hp
    exact bne_iff_ne.2 (h.long p hp).symm
  have hruns : caseRuns.find? (·.covers c.toNat) = none := by
    rw [List.find?_eq_none]
    intro r hr
    rw [h.runs r hr]
    exact Bool.false_ne_true
  rw [upperChar, hlong, hruns]
  split
  · rw [toUpper_of_not_small h.ascii]
  · rfl

namespace CaseRun

def apartFrom (r s : CaseRun) : Bool :=
  (r.capital r.last).blt s.first || s.last.blt (r.capital r.first) ||
    ((r.first == r.last || r.step % s.step == 0) &&
      r.capital r.first % s.step != s.first % s.step)

def isFinal (r : CaseRun) : Bool :=
  0 ≤ r.first + r.shift && 65 ≤ r.capital r.first &&
    (r.capital r.last < 97 || 122 < r.capital r.first) &&
    (r.capital r.last < 0xD800 || 0xDFFF < r.capital r.first && r.capital r.last < 0x110000) &&
    (longUpper.all fun p => p.1.blt (r.capital r.first) || (r.capital r.last).blt p.1) &&
    caseRuns.all fun s => r.apartFrom s

theorem isFinal_of_mem : ∀ r ∈ caseRuns, r.isFinal = true := by
  decide +kernel

variable {r s : CaseRun} {n : Nat}

theorem capital_of_covers (hr : 0 ≤ r.first + r.shift) (h : r.covers n = true) :
    r.first ≤ n ∧ n ≤ r.last ∧ (n - r.first) % r.step = 0 ∧
      r.capital n = r.capital r.first + (n - r.first) ∧ r.capital n ≤ r.capital r.last := by
  simp only [covers, capital, Bool.and_eq_true, decide_eq_true_eq, beq_iff_eq] at *
  omega

theorem covers_capital (hr : 0 ≤ r.first + r.shift) (hapart : r.apartFrom s = true)
    (h : r.covers n = true) : s.covers (r.capital n) = false := by
  obtain ⟨hfirst, hlast, hstep, hcapital, hle⟩ := capital_of_covers hr h
  rw [covers, Bool.and_eq_false_iff, Bool.and_eq_false_iff]
  by_contra hcovers
  simp only [not_or, Bool.not_eq_false, decide_eq_true_eq, beq_iff_eq] at hcovers
  obtain ⟨⟨hsfirst, hslast⟩, hsstep⟩ := hcovers
  -- Both runs would have a number in common, so their numbers agree modulo the second step.
  have hclash : r.capital n % s.step = s.first % s.step :=
    ((Nat.modEq_iff_dvd' hsfirst).2 (Nat.dvd_of_mod_eq_zero hsstep)).symm
  simp only [apartFrom, Bool.or_eq_true, Bool.and_eq_true, Nat.blt_eq, beq_iff_eq,
    bne_iff_ne] at hapart
  rcases hapart with (hbelow | habove) | ⟨hsame, hne⟩
  · omega
  · omega
  · refine hne (Eq.trans ?_ hclash)
    rw [hcapital]
    rcases hsame with hsingle | hdvd
    · have heq : n - r.first = 0 := by omega
      rw [heq, Nat.add_zero]
    · have hdiff : s.step ∣ n - r.first :=
        (Nat.dvd_of_mod_eq_zero hdvd).trans (Nat.dvd_of_mod_eq_zero hstep)
      rw [Nat.add_mod, Nat.mod_eq_zero_of_dvd hdiff, Nat.add_zero, Nat.mod_mod]

theorem isCapitalForm_capital (hr : r.isFinal = true) (h : r.covers n = true) :
    IsCapitalForm (r.capital n) := by
  simp only [isFinal, Bool.and_eq_true, Bool.or_eq_true, decide_eq_true_eq, List.all_eq_true,
    Nat.blt_eq] at hr
  obtain ⟨⟨⟨⟨⟨hrise, hletter⟩, hascii⟩, hvalid⟩, hlong⟩, hapart⟩ := hr
  obtain ⟨hfirst, hlast, hstep, hcapital, hle⟩ := capital_of_covers hrise h
  refine ⟨⟨?_, ?_, fun s hs => covers_capital hrise (hapart s hs) h⟩, ?_, ?_⟩
  · omega
  · intro p hp
    have hend := hlong p hp
    omega
  · omega
  · unfold Nat.isValidChar
    omega

def single (n : Nat) : CaseRun := ⟨n, n, 1, 0⟩

end CaseRun

theorem isFinal_of_longUpper : ∀ p ∈ longUpper, ∀ n ∈ p.2, (CaseRun.single n).isFinal = true := by
  decide +kernel

theorem isCapitalForm_of_longUpper {p : Nat × List Nat} {n : Nat} (hp : p ∈ longUpper)
    (hn : n ∈ p.2) : IsCapitalForm n := by
  have hform := CaseRun.isCapitalForm_capital (isFinal_of_longUpper p hp n hn)
    (show (CaseRun.single n).covers n = true by simp [CaseRun.single, CaseRun.covers])
  simpa [CaseRun.single, CaseRun.capital] using hform

theorem isCapitalForm_of_mem_upperChar {c d : Char} (h : d ∈ upperChar c)
    (hc : 128 ≤ c.toNat) : d = c ∧ upperChar c = [c] ∨ IsCapitalForm d.toNat := by
  have hform {n : Nat} (hn : IsCapitalForm n) : IsCapitalForm (Char.ofNat n).toNat := by
    have hchar : (Char.ofNat n).toNat = n := by
      rw [Char.ofNat, dif_pos hn.valid]
      rfl
    rwa [hchar]
  rw [upperChar, if_neg (by omega)] at h ⊢
  split at h
  next ns hlong =>
    obtain ⟨n, hn, rfl⟩ := List.mem_map.1 h
    obtain ⟨before, after, hsplit, -⟩ := List.lookup_eq_some_iff.1 hlong
    exact Or.inr (hform (isCapitalForm_of_longUpper (p := (c.toNat, ns)) (by simp [hsplit]) hn))
  next =>
    split at h
    next r hr =>
      rw [List.mem_singleton] at h
      subst h
      have hcovers : r.covers c.toNat = true := by simpa using List.find?_some hr
      exact Or.inr (hform (CaseRun.isCapitalForm_capital
        (CaseRun.isFinal_of_mem r (List.mem_of_find?_eq_some hr)) hcovers))
    next => exact Or.inl ⟨List.mem_singleton.1 h, by simp_all⟩

theorem upperChar_of_mem_upperChar {c d : Char} (h : d ∈ upperChar c) : upperChar d = [d] := by
  by_cases hc : c.toNat < 128
  · rw [upperChar_of_ascii hc, List.mem_singleton] at h
    subst h
    have hupper := toNat_toUpper c
    rw [upperChar_of_ascii (by split at hupper <;> omega)]
    rw [toUpper_of_not_small (by split at hupper <;> omega)]
  · rcases isCapitalForm_of_mem_upperChar h (by omega) with ⟨rfl, hkept⟩ | hform
    · exact hkept
    · exact upperChar_of_isCapital hform.toIsCapital

theorem upper_upper (cs : List Char) : upper (upper cs) = upper cs := by
  have hkept (ds : List Char) (h : ∀ d ∈ ds, upperChar d = [d]) : upper ds = ds := by
    induction ds with
    | nil => rfl
    | cons d ds ih =>
      obtain ⟨hd, hds⟩ := List.forall_mem_cons.1 h
      rw [upper, List.flatMap_cons, hd, ← upper, ih hds]
      rfl
  refine hkept _ ?_
  intro d hd
  obtain ⟨c, -, hc⟩ := List.mem_flatMap.1 hd
  exact upperChar_of_mem_upperChar hc

theorem upperChar_ne_nil (c : Char) : upperChar c ≠ [] := by
  have hlong : ∀ p ∈ longUpper, p.2 ≠ [] := by decide +kernel
  rw [upperChar]
  split
  · exact List.cons_ne_nil _ _
  · split
    next ns hns =>
      obtain ⟨before, after, hsplit, -⟩ := List.lookup_eq_some_iff.1 hns
      have hne := hlong (c.toNat, ns) (by simp [hsplit])
      simpa using hne
    next => split <;> exact List.cons_ne_nil _ _

theorem upper_eq_nil_iff {cs : List Char} : upper cs = [] ↔ cs = [] := by
  rw [upper, List.flatMap_eq_nil_iff]
  constructor
  · intro h
    refine List.eq_nil_iff_forall_not_mem.2 ?_
    intro c hc
    exact upperChar_ne_nil c (h c hc)
  · rintro rfl
    exact nofun

theorem of_mem_upper {cs : List Char} {d : Char} (h : d ∈ upper cs) : d ∈ cs ∨ 65 ≤ d.toNat := by
  obtain ⟨c, hc, hd⟩ := List.mem_flatMap.1 h
  by_cases hascii : c.toNat < 128
  · rw [upperChar_of_ascii hascii, List.mem_singleton] at hd
    subst hd
    by_cases hsmall : c.toNat < 97 ∨ 122 < c.toNat
    · rw [toUpper_of_not_small hsmall]
      exact Or.inl hc
    · rw [toNat_toUpper, if_pos (by omega)]
      exact Or.inr (by omega)
  · rcases isCapitalForm_of_mem_upperChar hd (by omega) with ⟨rfl, -⟩ | hform
    · exact Or.inl hc
    · exact Or.inr hform.letter

end PatternScript.Text
