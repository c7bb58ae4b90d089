import PatternScript.Proofs.Bounds.Lines
import PatternScript.Proofs.Lines.Ends

/-!
# Where a line is cut

Between whole points that are not farther away than words reach, the edges of the window are
given exactly. So the parts of the line that are kept are exact quotients, each rounded once, and
their order is kept by rounding. A part of the line that is between all edges is therefore never
cut away, and the cuts come to lie where the line crosses the border of the window, up to a
fraction of a pixel.
-/
namespace PatternScript

open Number

namespace Number.Nearest

variable {x y : Float} {p q : ℚ}

theorem of_value_eq (h : Nearest x q) (hy : y.isFinite = true) (heq : value y = value x) :
    Nearest y q where
  isFinite := hy
  closest := heq ▸ h.closest
  error := heq ▸ h.error

theorem greatest (h : Nearest x p) (h' : Nearest y q) : Nearest (greatest x y) (max p q) := by
  obtain ⟨hfinite, hvalue⟩ := isFinite_and_value_greatest h.isFinite h'.isFinite
  rcases lt_trichotomy p q with hlt | rfl | hlt
  · rw [max_eq_right hlt.le]
    exact h'.of_value_eq hfinite (hvalue.trans (max_eq_right (h.mono h' hlt)))
  · rw [max_self]
    rcases max_choice (value x) (value y) with heq | heq
    · exact h.of_value_eq hfinite (hvalue.trans heq)
    · exact h'.of_value_eq hfinite (hvalue.trans heq)
  · rw [max_eq_left hlt.le]
    exact h.of_value_eq hfinite (hvalue.trans (max_eq_left (h'.mono h hlt)))

theorem least (h : Nearest x p) (h' : Nearest y q) : Nearest (least x y) (min p q) := by
  obtain ⟨hfinite, hvalue⟩ := isFinite_and_value_least h.isFinite h'.isFinite
  rcases lt_trichotomy p q with hlt | rfl | hlt
  · rw [min_eq_left hlt.le]
    exact h.of_value_eq hfinite (hvalue.trans (min_eq_left (h.mono h' hlt)))
  · rw [min_self]
    rcases min_choice (value x) (value y) with heq | heq
    · exact h.of_value_eq hfinite (hvalue.trans heq)
    · exact h'.of_value_eq hfinite (hvalue.trans heq)
  · rw [min_eq_right hlt.le]
    exact h'.of_value_eq hfinite (hvalue.trans (min_eq_right (h'.mono h hlt)))

end Number.Nearest

namespace Segment

structure IsInteger (c : Float) (n : Int) : Prop where
  isFinite : c.isFinite = true
  value_eq : value c = n
  reach : |n| ≤ 2 ^ 31

/-- An edge that is known exactly: it keeps the parts `t` with `e.1 * t ≤ e.2`. -/
structure IsExactEdge (edge : Float × Float) (e : Int × Int) : Prop where
  isFinite_fst : edge.1.isFinite = true
  isFinite_snd : edge.2.isFinite = true
  fst : value edge.1 = e.1
  snd : value edge.2 = e.2
  reach_fst : |e.1| ≤ 2 ^ 32
  reach_snd : |e.2| ≤ 2 ^ 33

section Edge

variable {edge : Float × Float} {e : Int × Int} {t₀ t₁ r : Float} {t : ℚ}

theorem IsExactEdge.nearest (he : IsExactEdge edge e) (hne : e.1 ≠ 0) :
    Nearest (edge.2 / edge.1) (e.2 / e.1) := by
  have hone : (1 : ℚ) ≤ |(e.1 : ℚ)| := by exact_mod_cast Int.one_le_abs hne
  have hreach : |(e.2 : ℚ)| ≤ 2 ^ 33 := by exact_mod_cast he.reach_snd
  have hquotient : |(e.2 / e.1 : ℚ)| ≤ 2 ^ 33 := by
    rw [abs_div]
    exact (div_le_self (abs_nonneg _) hone).trans hreach
  have h := rounded_div he.isFinite_snd he.isFinite_fst
    (by rw [he.fst]; exact_mod_cast hne)
  rw [he.fst, he.snd] at h
  exact h.nearest (abs_lt_limit (hquotient.trans (by norm_num)))

theorem cutEdge?_eq (he : IsExactEdge edge e) (h₀ : IsPart t₀) (h₁ : IsPart t₁) :
    (e.1 = 0 → cutEdge? (t₀, t₁) edge = if e.2 < 0 then none else some (t₀, t₁)) ∧
    (e.1 < 0 → ∃ r, Nearest r (e.2 / e.1) ∧ cutEdge? (t₀, t₁) edge =
      if value t₁ < value r then none else some (greatest t₀ r, t₁)) ∧
    (0 < e.1 → ∃ r, Nearest r (e.2 / e.1) ∧ cutEdge? (t₀, t₁) edge =
      if value r < value t₀ then none else some (t₀, least t₁ r)) := by
  obtain ⟨p, q⟩ := edge
  have hzero : (p == 0.0) = true ↔ e.1 = 0 := by
    rw [beq_iff he.isFinite_fst isFinite_zero, value_zero, he.fst]
    exact_mod_cast Iff.rfl
  have hneg : p < 0.0 ↔ e.1 < 0 := by
    rw [lt_iff he.isFinite_fst isFinite_zero, value_zero, he.fst]
    exact_mod_cast Iff.rfl
  have hneg' : q < 0.0 ↔ e.2 < 0 := by
    rw [lt_iff he.isFinite_snd isFinite_zero, value_zero, he.snd]
    exact_mod_cast Iff.rfl
  simp only [cutEdge?, hzero, hneg, hneg']
  refine ⟨fun h => if_pos h, fun h => ?_, fun h => ?_⟩
  · have hr := he.nearest h.ne
    refine ⟨q / p, hr, ?_⟩
    rw [if_neg h.ne, if_pos h]
    simp only [gt_iff_lt, lt_iff h₁.isFinite hr.isFinite]
  · have hr := he.nearest h.ne'
    refine ⟨q / p, hr, ?_⟩
    rw [if_neg h.ne', if_neg (not_lt.2 h.le)]
    simp only [lt_iff hr.isFinite h₀.isFinite]

theorem add_le_quotient {p q k : Int} (hne : p ≠ 0) (hreach : |p| ≤ 2 ^ 32)
    (hlt : (k : ℚ) < q / p) : (k : ℚ) + 1 / 2 ^ 32 ≤ q / p := by
  have hp : (p : ℚ) ≠ 0 := by exact_mod_cast hne
  have hdiff : (q / p - k : ℚ) = (q - k * p : Int) / p := by
    push_cast
    field_simp
  have hpos : (0 : ℚ) < (q - k * p : Int) / p := hdiff ▸ sub_pos.2 hlt
  have hone : (1 : ℚ) ≤ |((q - k * p : Int) : ℚ)| := by
    have hne : q - k * p ≠ 0 := by
      rintro hzero
      rw [hzero, Int.cast_zero, zero_div] at hpos
      exact lt_irrefl 0 hpos
    exact_mod_cast Int.one_le_abs hne
  have hreach' : |(p : ℚ)| ≤ 2 ^ 32 := by exact_mod_cast hreach
  have hquotient : (1 / 2 ^ 32 : ℚ) ≤ (q - k * p : Int) / p := by
    rw [← abs_of_pos hpos, abs_div]
    exact div_le_div₀ (abs_nonneg _) hone (abs_pos.2 hp) hreach'
  linarith

theorem quotient_between (hr : Nearest r (e.2 / e.1)) (hne : e.1 ≠ 0) (hreach : |e.1| ≤ 2 ^ 32)
    (hlow : 0 ≤ value r) (hhigh : value r ≤ 1) : 0 ≤ (e.2 / e.1 : ℚ) ∧ (e.2 / e.1 : ℚ) ≤ 1 := by
  constructor
  · by_contra hneg
    have hfar := add_le_quotient (q := -e.2) (k := 0) hne hreach (by
      push_cast
      rw [neg_div]
      linarith)
    obtain ⟨y, hy, hvalue⟩ := exists_value (n := -1) (e := -32) (by decide) (by decide) (by decide)
    have hvalue' : value y = -(1 / 2 ^ 32) := by rw [hvalue]; norm_num
    push_cast at hfar
    rw [neg_div] at hfar
    have := hr.ge_of_ge hy (by linarith)
    rw [hvalue'] at this
    norm_num at this
    linarith
  · by_contra hlarge
    have hfar := add_le_quotient (q := e.2) (k := 1) hne hreach (by
      push_cast
      linarith)
    obtain ⟨y, hy, hvalue⟩ := exists_value (n := 2 ^ 32 + 1) (e := -32) (by decide) (by decide)
      (by decide)
    have hvalue' : value y = 1 + 1 / 2 ^ 32 := by rw [hvalue]; norm_num
    push_cast at hfar
    have := hr.le_of_le hy (by linarith)
    rw [hvalue'] at this
    norm_num at this
    linarith

end Edge

section Fold

variable {es done : List (Int × Int)} {edges : List (Float × Float)} {kept kept' edge : Float × Float}
  {e : Int × Int} {t t₀ t₁ δ : ℚ}

def starts (es : List (Int × Int)) : Set ℚ := {t | t = 0 ∨ ∃ e ∈ es, e.1 < 0 ∧ t = e.2 / e.1}

def stops (es : List (Int × Int)) : Set ℚ := {t | t = 1 ∨ ∃ e ∈ es, 0 < e.1 ∧ t = e.2 / e.1}

theorem starts_concat_of_neg (h : e.1 < 0) :
    starts (es ++ [e]) = insert (e.2 / e.1 : ℚ) (starts es) := by
  ext t
  simp only [starts, Set.mem_ofPred_eq, Set.mem_insert_iff, List.mem_append, List.mem_singleton]
  grind

theorem starts_concat_of_nonneg (h : 0 ≤ e.1) : starts (es ++ [e]) = starts es := by
  ext t
  simp only [starts, Set.mem_ofPred_eq, List.mem_append, List.mem_singleton]
  grind

theorem stops_concat_of_pos (h : 0 < e.1) :
    stops (es ++ [e]) = insert (e.2 / e.1 : ℚ) (stops es) := by
  ext t
  simp only [stops, Set.mem_ofPred_eq, Set.mem_insert_iff, List.mem_append, List.mem_singleton]
  grind

theorem stops_concat_of_nonpos (h : e.1 ≤ 0) : stops (es ++ [e]) = stops es := by
  ext t
  simp only [stops, Set.mem_ofPred_eq, List.mem_append, List.mem_singleton]
  grind

theorem le_of_mem_starts (h : t₀ ∈ starts es) (ht : 0 ≤ t) (hin : ∀ e ∈ es, e.1 * t < e.2) :
    t₀ ≤ t := by
  rcases h with rfl | ⟨e, he, hneg, rfl⟩
  · exact ht
  · have hneg' : (e.1 : ℚ) < 0 := by exact_mod_cast hneg
    rw [div_le_iff_of_neg hneg', mul_comm]
    exact (hin e he).le

theorem le_of_mem_stops (h : t₁ ∈ stops es) (ht : t ≤ 1) (hin : ∀ e ∈ es, e.1 * t < e.2) :
    t ≤ t₁ := by
  rcases h with rfl | ⟨e, he, hpos, rfl⟩
  · exact ht
  · have hpos' : (0 : ℚ) < e.1 := by exact_mod_cast hpos
    rw [le_div_iff₀ hpos', mul_comm]
    exact (hin e he).le

/-- What is known of the part that is kept after some edges: it goes from the last start to the
first stop, both rounded. -/
structure Kept (es : List (Int × Int)) (kept : Float × Float) : Prop where
  first : IsPart kept.1
  last : IsPart kept.2
  le : value kept.1 ≤ value kept.2
  flat : ∀ e ∈ es, e.1 = 0 → 0 ≤ e.2
  start : ∃ t, IsGreatest (starts es) t ∧ Nearest kept.1 t
  stop : ∃ t, IsLeast (stops es) t ∧ Nearest kept.2 t

theorem kept_all : Kept [] (0.0, 1.0) where
  first := isPart_zero_and_one.1
  last := isPart_zero_and_one.2
  le := by
    rw [one_eq, value_zero, value_one]
    exact zero_le_one
  flat := nofun
  start := ⟨0, ⟨.inl rfl, by rintro t (rfl | ⟨e, ⟨⟩, -⟩); exact le_rfl⟩,
    .of_eq isFinite_zero value_zero⟩
  stop := ⟨1, ⟨.inl rfl, by rintro t (rfl | ⟨e, ⟨⟩, -⟩); exact le_rfl⟩,
    .of_eq isFinite_one value_one⟩

theorem Kept.flat_concat (h : Kept es kept) (he : e.1 = 0 → 0 ≤ e.2) :
    ∀ e' ∈ es ++ [e], e'.1 = 0 → 0 ≤ e'.2 :=
  List.forall_mem_append.2 ⟨h.flat, List.forall_mem_singleton.2 he⟩

theorem Kept.cutEdge (h : Kept es kept) (he : IsExactEdge edge e)
    (hcut : cutEdge? kept edge = some kept') : Kept (es ++ [e]) kept' := by
  obtain ⟨r₀, r₁⟩ := kept
  obtain ⟨hflat, hneg, hpos⟩ := cutEdge?_eq he h.first h.last
  obtain ⟨t₀, hstart, hnear₀⟩ := h.start
  obtain ⟨t₁, hstop, hnear₁⟩ := h.stop
  rcases lt_trichotomy e.1 0 with hlt | heq | hgt
  · obtain ⟨r, hr, hcut'⟩ := hneg hlt
    rw [hcut] at hcut'
    split_ifs at hcut' with hout
    cases hcut'
    have hle := not_lt.1 hout
    obtain ⟨-, hvalue⟩ := isFinite_and_value_greatest h.first.isFinite hr.isFinite
    refine ⟨h.first.greatest hr.isFinite (hle.trans h.last.le_one), h.last,
      hvalue ▸ max_le h.le hle, h.flat_concat (absurd · hlt.ne), ⟨_, ?_, hnear₀.greatest hr⟩,
      t₁, ?_, hnear₁⟩
    · rw [starts_concat_of_neg hlt, max_comm]
      exact hstart.insert _
    · rwa [stops_concat_of_nonpos hlt.le]
  · have hcut' := hflat heq
    rw [hcut] at hcut'
    split_ifs at hcut' with hout
    cases hcut'
    refine ⟨h.first, h.last, h.le, h.flat_concat fun _ => not_lt.1 hout, ⟨t₀, ?_, hnear₀⟩,
      t₁, ?_, hnear₁⟩
    · rwa [starts_concat_of_nonneg heq.ge]
    · rwa [stops_concat_of_nonpos heq.le]
  · obtain ⟨r, hr, hcut'⟩ := hpos hgt
    rw [hcut] at hcut'
    split_ifs at hcut' with hout
    cases hcut'
    have hle := not_lt.1 hout
    obtain ⟨-, hvalue⟩ := isFinite_and_value_least h.last.isFinite hr.isFinite
    refine ⟨h.first, h.last.least hr.isFinite (h.first.nonneg.trans hle),
      hvalue ▸ le_min h.le hle, h.flat_concat (absurd · hgt.ne'), ⟨t₀, ?_, hnear₀⟩,
      _, ?_, hnear₁.least hr⟩
    · rwa [starts_concat_of_nonneg hgt.le]
    · rw [stops_concat_of_pos hgt, min_comm]
      exact hstop.insert _

theorem Kept.foldlM (h : Kept done kept) (hes : List.Forall₂ IsExactEdge edges es)
    (hfold : edges.foldlM cutEdge? kept = some kept') : Kept (done ++ es) kept' := by
  induction hes generalizing done kept with
  | nil =>
    cases hfold
    rwa [List.append_nil]
  | @cons edge e edges es he _ ih =>
    rw [List.foldlM_cons, Option.bind_eq_bind, Option.bind_eq_some_iff] at hfold
    obtain ⟨next, hnext, hrest⟩ := hfold
    rw [← List.singleton_append, ← List.append_assoc]
    exact ih (h.cutEdge he hnext) hrest

theorem Kept.exists_cutEdge (h : Kept es kept) (he : IsExactEdge edge e) (ht : 0 ≤ t) (ht' : t ≤ 1)
    (hes : ∀ e ∈ es, e.1 * t < e.2) (hin : e.1 * t < e.2) :
    ∃ kept', cutEdge? kept edge = some kept' := by
  obtain ⟨t₀, t₁⟩ := kept
  obtain ⟨hflat, hneg, hpos⟩ := cutEdge?_eq he h.first h.last
  rcases lt_trichotomy e.1 0 with hlt | heq | hgt
  · obtain ⟨r, hr, hcut⟩ := hneg hlt
    obtain ⟨stop, hstop, hnear⟩ := h.stop
    have hlt' : (e.1 : ℚ) < 0 := by exact_mod_cast hlt
    have hbefore : (e.2 / e.1 : ℚ) < t := by rwa [div_lt_iff_of_neg hlt', mul_comm]
    have hmono := hr.mono hnear (hbefore.trans_le (le_of_mem_stops hstop.1 ht' hes))
    exact ⟨_, hcut.trans (if_neg (not_lt.2 hmono))⟩
  · have hpos' : 0 < e.2 := by
      rw [heq, Int.cast_zero, zero_mul] at hin
      exact_mod_cast hin
    exact ⟨_, (hflat heq).trans (if_neg (not_lt.2 hpos'.le))⟩
  · obtain ⟨r, hr, hcut⟩ := hpos hgt
    obtain ⟨start, hstart, hnear⟩ := h.start
    have hgt' : (0 : ℚ) < e.1 := by exact_mod_cast hgt
    have hafter : t < e.2 / e.1 := by rwa [lt_div_iff₀ hgt', mul_comm]
    have hmono := hnear.mono hr ((le_of_mem_starts hstart.1 ht hes).trans_lt hafter)
    exact ⟨_, hcut.trans (if_neg (not_lt.2 hmono))⟩

theorem Kept.exists_foldlM (h : Kept done kept) (hes : List.Forall₂ IsExactEdge edges es)
    (ht : 0 ≤ t) (ht' : t ≤ 1) (hdone : ∀ e ∈ done, e.1 * t < e.2)
    (hin : ∀ e ∈ es, e.1 * t < e.2) : ∃ kept', edges.foldlM cutEdge? kept = some kept' := by
  induction hes generalizing done kept with
  | nil => exact ⟨kept, rfl⟩
  | @cons edge e edges es he _ ih =>
    obtain ⟨hhere, hrest⟩ := List.forall_mem_cons.1 hin
    obtain ⟨next, hnext⟩ := h.exists_cutEdge he ht ht' hdone hhere
    obtain ⟨kept', hfold⟩ := ih (h.cutEdge he hnext)
      (List.forall_mem_append.2 ⟨hdone, by simpa using hhere⟩) hrest
    refine ⟨kept', ?_⟩
    rw [List.foldlM_cons, hnext]
    exact hfold

theorem mul_le_of_between (hstart : IsGreatest (starts es) t₀) (hstop : IsLeast (stops es) t₁)
    (hflat : e.1 = 0 → 0 ≤ e.2) (he : e ∈ es) (hlow : t₀ - δ ≤ t) (hhigh : t ≤ t₁ + δ) :
    e.1 * t ≤ e.2 + |(e.1 : ℚ)| * δ := by
  rcases lt_trichotomy e.1 0 with hlt | heq | hgt
  · have hlt' : (e.1 : ℚ) < 0 := by exact_mod_cast hlt
    have hle : (e.2 / e.1 : ℚ) ≤ t + δ := by linarith [hstart.2 (.inr ⟨e, he, hlt, rfl⟩)]
    rw [div_le_iff_of_neg hlt'] at hle
    rw [abs_of_neg hlt']
    linarith
  · rw [heq, Int.cast_zero, zero_mul, abs_zero, zero_mul, add_zero]
    exact_mod_cast hflat heq
  · have hgt' : (0 : ℚ) < e.1 := by exact_mod_cast hgt
    have hle : t - δ ≤ (e.2 / e.1 : ℚ) := by linarith [hstop.2 (.inr ⟨e, he, hgt, rfl⟩)]
    rw [le_div_iff₀ hgt'] at hle
    rw [abs_of_pos hgt']
    linarith

end Fold

section Ends

variable {s c : Segment} {x₀ y₀ x₁ y₁ m n : Int} {width height : Int32} {a b z t : Float} {T q : ℚ}
  {kept : Float × Float}

/-- The ends of a segment, in integers. -/
structure Joins (s : Segment) (x₀ y₀ x₁ y₁ : Int) : Prop where
  start_x : IsInteger s.start.x x₀
  start_y : IsInteger s.start.y y₀
  stop_x : IsInteger s.stop.x x₁
  stop_y : IsInteger s.stop.y y₁

theorem abs_sub_le_of_reach (hm : |m| ≤ 2 ^ 31) (hn : |n| ≤ 2 ^ 31) : |n - m| ≤ 2 ^ 32 :=
  (abs_sub n m).trans (by omega)

theorem IsInteger.sub (ha : IsInteger a m) (hb : IsInteger b n) : (b - a).isFinite = true ∧
    value (b - a) = (n - m : Int) := by
  have hlt : |n - m| < 2 ^ 53 := (abs_sub_le_of_reach ha.reach hb.reach).trans_lt (by norm_num)
  have h := rounded_sub hb.isFinite ha.isFinite
  rw [ha.value_eq, hb.value_eq, ← Int.cast_sub] at h
  have hnear := h.nearest (abs_intCast_lt_limit hlt)
  exact ⟨hnear.isFinite, hnear.eq_intCast hlt⟩

theorem isInteger_ofInt32 (n : Int32) : IsInteger (ofInt32 n) n.toInt := by
  have hn := Words.bounds n
  refine ⟨isFinite_ofInt32 n, value_ofInt32 n, abs_le.2 ⟨?_, ?_⟩⟩ <;> omega

theorem joins_ofInt32 (x₀ y₀ x₁ y₁ : Int32) :
    (⟨⟨ofInt32 x₀, ofInt32 y₀⟩, ⟨ofInt32 x₁, ofInt32 y₁⟩⟩ : Segment).Joins x₀.toInt y₀.toInt
      x₁.toInt y₁.toInt :=
  ⟨isInteger_ofInt32 x₀, isInteger_ofInt32 y₀, isInteger_ofInt32 x₁, isInteger_ofInt32 y₁⟩

theorem isInteger_neg_one : IsInteger (-1) (-1) := by
  refine ⟨by rw [isFinite_neg]; rfl, ?_, by norm_num⟩
  rw [value_neg, value_one]
  norm_num

def exactEdges (x₀ y₀ x₁ y₁ width height : Int) : List (Int × Int) :=
  [(-(x₁ - x₀), x₀ - -1), (x₁ - x₀, width - x₀), (-(y₁ - y₀), y₀ - -1), (y₁ - y₀, height - y₀)]

theorem isExactEdge_lower (ha : IsInteger a m) (hb : IsInteger b n) :
    IsExactEdge (-(b - a), a - -1) (-(n - m), m - -1) := by
  obtain ⟨hd, hd'⟩ := ha.sub hb
  obtain ⟨hq, hq'⟩ := isInteger_neg_one.sub ha
  refine ⟨by rw [isFinite_neg, hd], hq, by rw [value_neg, hd', Int.cast_neg], hq', ?_, ?_⟩
  · rw [abs_neg]
    exact abs_sub_le_of_reach ha.reach hb.reach
  · exact (abs_sub_le_of_reach isInteger_neg_one.reach ha.reach).trans (by norm_num)

theorem isExactEdge_upper (ha : IsInteger a m) (hb : IsInteger b n) (side : Int32) :
    IsExactEdge (b - a, ofInt32 side - a) (n - m, side.toInt - m) := by
  obtain ⟨hd, hd'⟩ := ha.sub hb
  obtain ⟨hq, hq'⟩ := ha.sub (isInteger_ofInt32 side)
  exact ⟨hd, hq, hd', hq', abs_sub_le_of_reach ha.reach hb.reach,
    (abs_sub_le_of_reach ha.reach (isInteger_ofInt32 side).reach).trans (by norm_num)⟩

theorem Joins.forall₂_edges (h : s.Joins x₀ y₀ x₁ y₁) (width height : Int32) :
    List.Forall₂ IsExactEdge (s.edges (.ofSize width height))
      (exactEdges x₀ y₀ x₁ y₁ width.toInt height.toInt) :=
  .cons (isExactEdge_lower h.start_x h.stop_x) <|
    .cons (isExactEdge_upper h.start_x h.stop_x width) <|
      .cons (isExactEdge_lower h.start_y h.stop_y) <|
        .cons (isExactEdge_upper h.start_y h.stop_y height) .nil

theorem forall_mem_exactEdges {P : Int × Int → Prop} {w h : Int} :
    (∀ e ∈ exactEdges x₀ y₀ x₁ y₁ w h, P e) ↔
      (P (-(x₁ - x₀), x₀ - -1) ∧ P (x₁ - x₀, w - x₀)) ∧
        P (-(y₁ - y₀), y₀ - -1) ∧ P (y₁ - y₀, h - y₀) := by
  simp [exactEdges, and_assoc]

theorem Inside.between_edges {w h : Int} (hin : Inside x₀ y₀ x₁ y₁ w h T) :
    ∀ e ∈ exactEdges x₀ y₀ x₁ y₁ w h, e.1 * T < e.2 := by
  obtain ⟨⟨hx, hx'⟩, hy, hy'⟩ := hin
  rw [forall_mem_exactEdges]
  push_cast
  exact ⟨⟨by linarith, by linarith⟩, by linarith, by linarith⟩

theorem eq_partOf_of_lower (hT : T = ((m - -1 : Int) : ℚ) / ((-(n - m) : Int) : ℚ)) :
    T = partOf m n (-1) := by
  rw [hT, partOf, Int.cast_neg, div_neg, ← neg_div]
  push_cast
  ring

theorem eq_partOf_of_upper {k : Int} (hT : T = ((k - m : Int) : ℚ) / ((n - m : Int) : ℚ)) :
    T = partOf m n k := by
  rw [hT, partOf]
  push_cast
  rfl

theorem onBorder_of_mem_exactEdges {w h : Int} {e : Int × Int}
    (he : e ∈ exactEdges x₀ y₀ x₁ y₁ w h) (hne : e.1 ≠ 0) (hT : T = e.2 / e.1) :
    OnBorder x₀ y₀ x₁ y₁ w h T := by
  simp only [exactEdges, List.mem_cons, List.not_mem_nil, or_false] at he
  rcases he with rfl | rfl | rfl | rfl
  · have hne' : x₀ ≠ x₁ := by omega
    refine .inl ⟨hne', -1, .inl rfl, ?_⟩
    rw [eq_partOf_of_lower hT, add_partOf_mul hne']
  · have hne' : x₀ ≠ x₁ := by omega
    refine .inl ⟨hne', w, .inr rfl, ?_⟩
    rw [eq_partOf_of_upper hT, add_partOf_mul hne']
  · have hne' : y₀ ≠ y₁ := by omega
    refine .inr ⟨hne', -1, .inl rfl, ?_⟩
    rw [eq_partOf_of_lower hT, add_partOf_mul hne']
  · have hne' : y₀ ≠ y₁ := by omega
    refine .inr ⟨hne', h, .inr rfl, ?_⟩
    rw [eq_partOf_of_upper hT, add_partOf_mul hne']

theorem approx_coordinate (ht : IsPart t) (ha : IsInteger a m) (hb : IsInteger b n) :
    Approx (a + t * (b - a)) (m + value t * (n - m)) (1 / 2 ^ 19) := by
  obtain ⟨hfinite, hvalue⟩ := ha.sub hb
  have hlength : |(n - m : ℚ)| ≤ 2 ^ 32 := by
    exact_mod_cast abs_sub_le_of_reach ha.reach hb.reach
  have hstart : |(m : ℚ)| ≤ 2 ^ 31 := by exact_mod_cast ha.reach
  have hone : |value t| ≤ 1 := by
    rw [abs_of_nonneg ht.nonneg]
    exact ht.le_one
  have hd : Approx (b - a) (n - m) 0 := ⟨hfinite, by rw [hvalue]; push_cast; rw [sub_self, abs_zero]⟩
  have hprod := (Approx.self ht.isFinite).mul hd (B := 2 ^ 32) hone hlength (by norm_num)
    (by norm_num) (by norm_num)
  have hshort : |value t * (n - m)| ≤ 2 ^ 32 := by
    rw [abs_mul]
    exact (mul_le_of_le_one_left (abs_nonneg _) hone).trans hlength
  have ha' : Approx a m 0 := ⟨ha.isFinite, by rw [ha.value_eq, sub_self, abs_zero]⟩
  refine (ha'.add hprod (B := 2 ^ 33) ?_ (by norm_num) (by norm_num)).mono (by norm_num)
  refine (add_le_add_left (abs_add_le _ _) _).trans ?_
  linarith

theorem abs_toWord64_sub_le (hz : Approx z q (1 / 2 ^ 19)) (hq : |q| ≤ 2 ^ 34) :
    |(Rounding.nearest.toWord64 z - q : ℚ)| ≤ 1 / 2 + 1 / 2 ^ 19 := by
  have hwhole := Rounding.abs_whole_nearest_sub_le (value z)
  have hnear : |(Rounding.nearest.whole (value z) - q : ℚ)| ≤ 1 / 2 + 1 / 2 ^ 19 := by
    have htriangle := abs_sub_le (Rounding.nearest.whole (value z) : ℚ) (value z) q
    linarith [hz.error]
  have hsize : |Rounding.nearest.whole (value z)| ≤ 2 ^ 35 := by
    have htriangle := abs_sub_abs_le_abs_sub (Rounding.nearest.whole (value z) : ℚ) q
    have hle : |(Rounding.nearest.whole (value z) : ℚ)| ≤ 2 ^ 35 := by linarith
    exact_mod_cast hle
  rw [abs_le] at hsize
  rw [Rounding.toWord64_eq hz.isFinite (by omega) (by omega)]
  exact hnear

theorem abs_coordinate_sub_le (ht : IsPart t) (ha : IsInteger a m) (hb : IsInteger b n) :
    |(Rounding.nearest.toWord64 (a + t * (b - a)) - (m + value t * (n - m)) : ℚ)| ≤
      1 / 2 + 1 / 2 ^ 19 := by
  refine abs_toWord64_sub_le (approx_coordinate ht ha hb) ?_
  have hlength : |(n - m : ℚ)| ≤ 2 ^ 32 := by
    exact_mod_cast abs_sub_le_of_reach ha.reach hb.reach
  have hstart : |(m : ℚ)| ≤ 2 ^ 31 := by exact_mod_cast ha.reach
  have hshort : |value t * (n - m)| ≤ |(n - m : ℚ)| := by
    rw [abs_mul, abs_of_nonneg ht.nonneg]
    exact mul_le_of_le_one_left (abs_nonneg _) ht.le_one
  refine (abs_add_le _ _).trans ?_
  linarith

theorem IsPart.abs_sub_le (ht : IsPart t) (hT : Nearest t T) : |value t - T| ≤ 2 / 2 ^ 53 := by
  have hone : |value t| ≤ 1 := by
    rw [abs_of_nonneg ht.nonneg]
    exact ht.le_one
  exact (hT.abs_sub_le hone le_rfl).trans (by norm_num)

theorem abs_coordinate_sub_exact_le (ht : IsPart t) (hT : Nearest t T) (ha : IsInteger a m)
    (hb : IsInteger b n) :
    |(Rounding.nearest.toWord64 (a + t * (b - a)) - (m + T * (n - m)) : ℚ)| ≤ 5 / 8 := by
  have hlength : |(n - m : ℚ)| ≤ 2 ^ 32 := by
    exact_mod_cast abs_sub_le_of_reach ha.reach hb.reach
  have hshift : |(m + value t * (n - m) - (m + T * (n - m)) : ℚ)| ≤ 2 / 2 ^ 53 * 2 ^ 32 := by
    rw [add_sub_add_left_eq_sub, ← sub_mul, abs_mul]
    exact mul_le_mul (ht.abs_sub_le hT) hlength (abs_nonneg _) (by positivity)
  have htriangle := abs_sub_le (Rounding.nearest.toWord64 (a + t * (b - a)) : ℚ)
    (m + value t * (n - m)) (m + T * (n - m))
  linarith [abs_coordinate_sub_le ht ha hb]

theorem rounded_between {c side : Int} (hc : |(c - q : ℚ)| ≤ 1 / 2 + 1 / 2 ^ 19)
    (hlow : -1 - 1 / 2 ^ 20 ≤ q) (hhigh : q ≤ side + 1 / 2 ^ 20) : -1 ≤ c ∧ c ≤ side := by
  have hc' : |(c - q : ℚ)| ≤ 5 / 8 := hc.trans (by norm_num)
  refine ⟨le_of_rounded hc' ?_, ge_of_rounded hc' ?_⟩
  · push_cast
    linarith
  · linarith

def roundedAt (p : Point) : Int × Int :=
  (Rounding.nearest.toWord64 p.x, Rounding.nearest.toWord64 p.y)

theorem Joins.reach_of_mem (h : s.Joins x₀ y₀ x₁ y₁) {w k : Int} {e : Int × Int}
    (he : e ∈ exactEdges x₀ y₀ x₁ y₁ w k) : |e.1| ≤ 2 ^ 32 := by
  have hx := abs_sub_le_of_reach h.start_x.reach h.stop_x.reach
  have hy := abs_sub_le_of_reach h.start_y.reach h.stop_y.reach
  revert e
  rw [forall_mem_exactEdges, abs_neg, abs_neg]
  exact ⟨⟨hx, hx⟩, hy, hy⟩

theorem Joins.cutAt (h : s.Joins x₀ y₀ x₁ y₁) {w k r : Int} (hr : 0 ≤ r ∧ r ≤ 1) (ht : IsPart t)
    (hT : Nearest t T)
    (hset : T = r ∨ ∃ e ∈ exactEdges x₀ y₀ x₁ y₁ w k, e.1 ≠ 0 ∧ T = e.2 / e.1) :
    CutAt x₀ y₀ x₁ y₁ w k r T (roundedAt (s.partway t)) := by
  have hbetween : 0 ≤ T ∧ T ≤ 1 := by
    rcases hset with rfl | ⟨e, he, hne, rfl⟩
    · exact_mod_cast hr
    · exact quotient_between hT hne (h.reach_of_mem he) ht.nonneg ht.le_one
  refine ⟨hbetween.1, hbetween.2, abs_coordinate_sub_exact_le ht hT h.start_x h.stop_x,
    abs_coordinate_sub_exact_le ht hT h.start_y h.stop_y, hset.imp_right ?_⟩
  rintro ⟨e, he, hne, heq⟩
  exact onBorder_of_mem_exactEdges he hne heq

theorem Kept.between_borders {w h : Int} {t₀ t₁ : ℚ}
    (hkept : Kept (exactEdges x₀ y₀ x₁ y₁ w h) kept) (q δ : ℚ)
    (hstart : IsGreatest (starts (exactEdges x₀ y₀ x₁ y₁ w h)) t₀)
    (hstop : IsLeast (stops (exactEdges x₀ y₀ x₁ y₁ w h)) t₁) (hlow : t₀ - δ ≤ q)
    (hhigh : q ≤ t₁ + δ) :
    (-1 - |(x₁ - x₀ : ℚ)| * δ ≤ x₀ + q * (x₁ - x₀) ∧
        x₀ + q * (x₁ - x₀) ≤ w + |(x₁ - x₀ : ℚ)| * δ) ∧
      -1 - |(y₁ - y₀ : ℚ)| * δ ≤ y₀ + q * (y₁ - y₀) ∧
        y₀ + q * (y₁ - y₀) ≤ h + |(y₁ - y₀ : ℚ)| * δ := by
  have hin : ∀ e ∈ exactEdges x₀ y₀ x₁ y₁ w h, e.1 * q ≤ e.2 + |(e.1 : ℚ)| * δ :=
    fun e he => mul_le_of_between hstart hstop (hkept.flat e he) he hlow hhigh
  rw [forall_mem_exactEdges] at hin
  push_cast [abs_neg] at hin
  obtain ⟨⟨hleft, hright⟩, htop, hbottom⟩ := hin
  exact ⟨⟨by linarith, by linarith⟩, by linarith, by linarith⟩

theorem Joins.cutTo (h : s.Joins x₀ y₀ x₁ y₁) {w k : Int}
    (hkept : Kept (exactEdges x₀ y₀ x₁ y₁ w k) kept) : ∃ t₀ t₁, CutTo x₀ y₀ x₁ y₁ w k t₀ t₁
      (roundedAt (s.partway kept.1)) (roundedAt (s.partway kept.2)) := by
  obtain ⟨t₀, hstart, hnear₀⟩ := hkept.start
  obtain ⟨t₁, hstop, hnear₁⟩ := hkept.stop
  have horder : t₀ - t₁ ≤ 4 / 2 ^ 53 := by
    have h₀ := abs_le.1 (hkept.first.abs_sub_le hnear₀)
    have h₁ := abs_le.1 (hkept.last.abs_sub_le hnear₁)
    linarith [hkept.le]
  have hshort {m n : Int} (hreach : |n - m| ≤ 2 ^ 32) : (t₀ - t₁) * |(n - m : ℚ)| ≤ 1 / 8 := by
    have hreach' : |(n - m : ℚ)| ≤ 2 ^ 32 := by exact_mod_cast hreach
    have hscaled := mul_le_mul_of_nonneg_right horder (abs_nonneg (n - m : ℚ))
    linarith
  refine ⟨t₀, t₁, ?first, ?last, ?_, ?_, ?keeps, ?within⟩
  case first =>
    refine h.cutAt (by decide) hkept.first hnear₀ (hstart.1.imp (·.trans Int.cast_zero.symm) ?_)
    rintro ⟨e, he, hneg, heq⟩
    exact ⟨e, he, hneg.ne, heq⟩
  case last =>
    refine h.cutAt (by decide) hkept.last hnear₁ (hstop.1.imp (·.trans Int.cast_one.symm) ?_)
    rintro ⟨e, he, hpos, heq⟩
    exact ⟨e, he, hpos.ne', heq⟩
  case keeps =>
    exact fun t ht ht' hin => ⟨le_of_mem_starts hstart.1 ht hin.between_edges,
      le_of_mem_stops hstop.1 ht' hin.between_edges⟩
  case within =>
    intro t hlow hhigh
    have hin := hkept.between_borders t 0 hstart hstop (by rwa [sub_zero]) (by rwa [add_zero])
    simp only [mul_zero, sub_zero, add_zero] at hin
    exact ⟨hin.1, hin.2⟩
  · exact hshort (abs_sub_le_of_reach h.start_x.reach h.stop_x.reach)
  · exact hshort (abs_sub_le_of_reach h.start_y.reach h.stop_y.reach)

theorem Joins.onWindow (h : s.Joins x₀ y₀ x₁ y₁) {w k : Int}
    (hkept : Kept (exactEdges x₀ y₀ x₁ y₁ w k) kept) (ht : IsPart t)
    (hlow : value kept.1 ≤ value t) (hhigh : value t ≤ value kept.2) :
    OnWindow w k (roundedAt (s.partway t)) := by
  obtain ⟨t₀, hstart, hnear₀⟩ := hkept.start
  obtain ⟨t₁, hstop, hnear₁⟩ := hkept.stop
  have h₀ := abs_le.1 (hkept.first.abs_sub_le hnear₀)
  have h₁ := abs_le.1 (hkept.last.abs_sub_le hnear₁)
  obtain ⟨⟨hleft, hright⟩, htop, hbottom⟩ := hkept.between_borders (value t) (2 / 2 ^ 53)
    hstart hstop (by linarith) (by linarith)
  have hshort {m n : Int} (hreach : |n - m| ≤ 2 ^ 32) :
      |(n - m : ℚ)| * (2 / 2 ^ 53) ≤ 1 / 2 ^ 20 := by
    have hreach' : |(n - m : ℚ)| ≤ 2 ^ 32 := by exact_mod_cast hreach
    linarith
  have hx := hshort (abs_sub_le_of_reach h.start_x.reach h.stop_x.reach)
  have hy := hshort (abs_sub_le_of_reach h.start_y.reach h.stop_y.reach)
  exact ⟨rounded_between (abs_coordinate_sub_le ht h.start_x h.stop_x) (by linarith) (by linarith),
    rounded_between (abs_coordinate_sub_le ht h.start_y h.stop_y) (by linarith) (by linarith)⟩

end Ends

end Segment

end PatternScript
