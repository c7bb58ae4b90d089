import PatternScript.Proofs.Doubles.Order
import PatternScript.Proofs.Lines.Cuts

/-!
# Ends inside the window

A line of which one end is inside the window is never cut away: each edge of the window keeps
the part at which that end lies, since rounded differences and quotients are in the order of the
exact ones. So a start that is inside stays where it is. A stop that is inside comes to lie where
the whole way leads, which is the stop itself unless the way is rounded too far.
-/
namespace PatternScript

open Number

/-- Equal coordinates; zeros of both signs are equal. -/
def Point.Same (p q : Point) : Prop := (p.x == q.x) = true ∧ (p.y == q.y) = true

instance (p q : Point) : Decidable (p.Same q) := inferInstanceAs (Decidable (_ ∧ _))

def Window.Contains (w : Window) (p : Point) : Prop :=
  (w.minX ≤ p.x ∧ p.x ≤ w.maxX) ∧ w.minY ≤ p.y ∧ p.y ≤ w.maxY

instance (w : Window) (p : Point) : Decidable (w.Contains p) := inferInstanceAs (Decidable (_ ∧ _))

namespace Segment

variable {s c : Segment} {w : Window} {edges : List (Float × Float)} {kept edge : Float × Float}
  {a b t lo hi d : Float}

/-- The edge has the part `t` of the line on the side that is kept. -/
structure Admits (t : Float) (edge : Float × Float) : Prop where
  isFinite : edge.1.isFinite = true
  reach : AtLeast edge.2 (value t * value edge.1)

structure Keeps (t : Float) (kept : Float × Float) : Prop where
  first : IsPart kept.1
  last : IsPart kept.2
  first_le : value kept.1 ≤ value t
  le_last : value t ≤ value kept.2

/-- What is kept is narrowed, but not where it begins or ends with the part `t`. -/
structure NarrowsTo (t : Float) (kept kept' : Float × Float) : Prop where
  keeps : Keeps t kept'
  first : value kept.1 = value t → kept'.1 = kept.1
  last : value kept.2 = value t → kept'.2 = kept.2

theorem NarrowsTo.refl (h : Keeps t kept) : NarrowsTo t kept kept :=
  ⟨h, fun _ => rfl, fun _ => rfl⟩

theorem NarrowsTo.trans {kept' kept'' : Float × Float} (h : NarrowsTo t kept kept')
    (h' : NarrowsTo t kept' kept'') : NarrowsTo t kept kept'' where
  keeps := h'.keeps
  first heq := (h'.first (by rw [h.first heq, heq])).trans (h.first heq)
  last heq := (h'.last (by rw [h.last heq, heq])).trans (h.last heq)

theorem Keeps.greatest {r : Float} (h : Keeps t kept) (ht : IsPart t) (hr : AtMost r (value t)) :
    NarrowsTo t kept (greatest kept.1 r, kept.2) := by
  rcases hr.greatest h.first.isFinite with heq | ⟨heq, hfinite, hlt, hle⟩
  · rw [heq]
    exact .refl h
  · rw [heq]
    exact ⟨⟨⟨hfinite, h.first.nonneg.trans hlt.le, hle.trans ht.le_one⟩, h.last, hle, h.le_last⟩,
      fun hstart => absurd (hle.trans_eq hstart.symm) (not_le.2 hlt), fun _ => rfl⟩

theorem Keeps.least {r : Float} (h : Keeps t kept) (ht : IsPart t) (hr : AtLeast r (value t)) :
    NarrowsTo t kept (kept.1, least kept.2 r) := by
  rcases hr.least h.last.isFinite with heq | ⟨heq, hfinite, hlt, hle⟩
  · rw [heq]
    exact .refl h
  · rw [heq]
    exact ⟨⟨h.first, ⟨hfinite, ht.nonneg.trans hle, hlt.le.trans h.last.le_one⟩, h.first_le, hle⟩,
      fun _ => rfl, fun hstop => absurd (hstop.trans_le hle) (not_le.2 hlt)⟩

theorem Keeps.cutEdge (h : Keeps t kept) (ht : IsPart t) (he : Admits t edge) :
    ∃ kept', cutEdge? kept edge = some kept' ∧ NarrowsTo t kept kept' := by
  obtain ⟨t₀, t₁⟩ := kept
  obtain ⟨p, q⟩ := edge
  obtain ⟨hpos, hneg⟩ := he.reach.div he.isFinite ht.isFinite ht.nonneg ht.le_one
  have hzero : (p == 0.0) = true ↔ value p = 0 := by
    rw [beq_iff he.isFinite isFinite_zero, value_zero]
  have hbelow : p < 0.0 ↔ value p < 0 := by
    rw [lt_iff he.isFinite isFinite_zero, value_zero]
  simp only [cutEdge?, hzero, hbelow]
  rcases lt_trichotomy (value p) 0 with hlt | heq | hgt
  · have hout : ¬ q / p > t₁ := (hneg hlt).not_above h.last.isFinite h.le_last
    rw [if_neg hlt.ne, if_pos hlt, if_neg hout]
    exact ⟨_, rfl, h.greatest ht (hneg hlt)⟩
  · have hreach := he.reach
    rw [heq, mul_zero] at hreach
    rw [if_pos heq, if_neg (hreach.not_below isFinite_zero value_zero.le)]
    exact ⟨_, rfl, .refl h⟩
  · have hout : ¬ q / p < t₀ := (hpos hgt).not_below h.first.isFinite h.first_le
    rw [if_neg hgt.ne', if_neg hgt.not_gt, if_neg hout]
    exact ⟨_, rfl, h.least ht (hpos hgt)⟩

theorem Keeps.foldlM (h : Keeps t kept) (ht : IsPart t) (he : ∀ edge ∈ edges, Admits t edge) :
    ∃ kept', edges.foldlM cutEdge? kept = some kept' ∧ NarrowsTo t kept kept' := by
  induction edges generalizing kept with
  | nil => exact ⟨kept, rfl, .refl h⟩
  | cons edge edges ih =>
    obtain ⟨hhere, hrest⟩ := List.forall_mem_cons.1 he
    obtain ⟨next, hnext, hnarrows⟩ := h.cutEdge ht hhere
    obtain ⟨kept', hfold, hnarrows'⟩ := ih hnarrows.keeps hrest
    refine ⟨kept', ?_, hnarrows.trans hnarrows'⟩
    rw [List.foldlM_cons, hnext]
    exact hfold

theorem admits_start (hd : (b - a).isFinite = true) (hlow : lo ≤ a) (hhigh : a ≤ hi) :
    Admits 0.0 (-(b - a), a - lo) ∧ Admits 0.0 (b - a, hi - a) := by
  obtain ⟨hb, ha⟩ := isFinite_of_sub hd
  obtain ⟨hzero, hzero'⟩ := value_sub_self ha
  have hleft := (AtMost.of_le ha hlow).sub ha ha hzero
  have hright := (AtLeast.of_le ha hhigh).sub ha ha hzero
  rw [hzero'] at hleft hright
  refine ⟨⟨by rwa [isFinite_neg], ?_⟩, ⟨hd, ?_⟩⟩
  · rwa [value_zero, zero_mul, ← neg_zero]
  · rwa [value_zero, zero_mul]

theorem admits_stop (hd : (b - a).isFinite = true) (hlow : lo ≤ b) (hhigh : b ≤ hi) :
    Admits 1.0 (-(b - a), a - lo) ∧ Admits 1.0 (b - a, hi - a) := by
  obtain ⟨hb, ha⟩ := isFinite_of_sub hd
  have hleft := (AtMost.of_le hb hlow).sub hb ha hd
  have hright := (AtLeast.of_le hb hhigh).sub hb ha hd
  refine ⟨⟨by rwa [isFinite_neg], ?_⟩, ⟨hd, ?_⟩⟩
  · rwa [one_eq, value_one, one_mul, value_neg]
  · rwa [one_eq, value_one, one_mul]

structure IsFinite (s : Segment) : Prop where
  x : (s.stop.x - s.start.x).isFinite = true
  y : (s.stop.y - s.start.y).isFinite = true

theorem forall_mem_edges {P : Float × Float → Prop} (s : Segment) (w : Window) :
    (∀ edge ∈ s.edges w, P edge) ↔
      (P (-(s.stop.x - s.start.x), s.start.x - w.minX) ∧
        P (s.stop.x - s.start.x, w.maxX - s.start.x)) ∧
      P (-(s.stop.y - s.start.y), s.start.y - w.minY) ∧
        P (s.stop.y - s.start.y, w.maxY - s.start.y) := by
  simp [edges, and_assoc]

theorem keeps_all (ht : IsPart t) : Keeps t (0.0, 1.0) where
  first := isPart_zero_and_one.1
  last := isPart_zero_and_one.2
  first_le := value_zero.trans_le ht.nonneg
  le_last := by
    rw [one_eq, value_one]
    exact ht.le_one

theorem clip?_of_foldlM (h : s.IsFinite)
    (hfold : (s.edges w).foldlM cutEdge? (0.0, 1.0) = some kept) :
    s.clip? w = some ⟨s.partway kept.1, s.partway kept.2⟩ := by
  obtain ⟨hbx, hax⟩ := isFinite_of_sub h.x
  obtain ⟨hby, hay⟩ := isFinite_of_sub h.y
  rw [edges] at hfold
  simp only [clip?, hax, hay, hbx, hby, Bool.and_self, Bool.not_true, Bool.false_eq_true, if_false,
    Option.bind_eq_bind, Option.pure_def, hfold, Option.bind_some]
  rfl

theorem same_partway_zero (h : s.IsFinite) : (s.partway 0.0).Same s.start := by
  have stays {a d : Float} (ha : a.isFinite = true) (hd : d.isFinite = true) :
      (a + 0.0 * d == a) = true := by
    obtain ⟨hz, hz'⟩ := value_mul_of_eq isFinite_zero hd isFinite_zero
      (by rw [value_zero, zero_mul])
    obtain ⟨hsum, hsum'⟩ := value_add_of_eq ha hz ha (by rw [hz', value_zero, add_zero])
    exact (beq_iff hsum ha).2 hsum'
  exact ⟨stays (isFinite_of_sub h.x).2 h.x, stays (isFinite_of_sub h.y).2 h.y⟩

/-- The whole way, computed as it is when the line is cut, leads to the stop. -/
def Arrives (s : Segment) : Prop := (s.partway 1.0).Same s.stop

instance (s : Segment) : Decidable s.Arrives := inferInstanceAs (Decidable (Point.Same _ _))

structure IsExact (s : Segment) : Prop where
  x : value (s.stop.x - s.start.x) = value s.stop.x - value s.start.x
  y : value (s.stop.y - s.start.y) = value s.stop.y - value s.start.y

theorem IsExact.arrives (he : s.IsExact) (h : s.IsFinite) : s.Arrives := by
  have leads {a b : Float} (hd : (b - a).isFinite = true)
      (hexact : value (b - a) = value b - value a) : (a + 1.0 * (b - a) == b) = true := by
    obtain ⟨hb, ha⟩ := isFinite_of_sub hd
    have hone : (1.0 : Float).isFinite = true ∧ value 1.0 = 1 := ⟨isFinite_one, value_one⟩
    obtain ⟨hz, hz'⟩ := value_mul_of_eq hone.1 hd hd (by rw [hone.2, one_mul])
    obtain ⟨hsum, hsum'⟩ := value_add_of_eq ha hz hb (by rw [hz', hexact, add_sub_cancel])
    exact (beq_iff hsum hb).2 hsum'
  exact ⟨leads h.x he.x, leads h.y he.y⟩

theorem Joins.isExact {x₀ y₀ x₁ y₁ : Int} (h : s.Joins x₀ y₀ x₁ y₁) : s.IsFinite ∧ s.IsExact := by
  obtain ⟨hx, hx'⟩ := h.start_x.sub h.stop_x
  obtain ⟨hy, hy'⟩ := h.start_y.sub h.stop_y
  refine ⟨⟨hx, hy⟩, ?_, ?_⟩
  · rw [hx', h.stop_x.value_eq, h.start_x.value_eq, Int.cast_sub]
  · rw [hy', h.stop_y.value_eq, h.start_y.value_eq, Int.cast_sub]

theorem admits_of_contains_start (h : s.IsFinite) (hin : w.Contains s.start) :
    ∀ edge ∈ s.edges w, Admits 0.0 edge := by
  rw [forall_mem_edges]
  exact ⟨admits_start h.x hin.1.1 hin.1.2, admits_start h.y hin.2.1 hin.2.2⟩

theorem admits_of_contains_stop (h : s.IsFinite) (hin : w.Contains s.stop) :
    ∀ edge ∈ s.edges w, Admits 1.0 edge := by
  rw [forall_mem_edges]
  exact ⟨admits_stop h.x hin.1.1 hin.1.2, admits_stop h.y hin.2.1 hin.2.2⟩

theorem exists_clip_of_contains (h : s.IsFinite)
    (hin : w.Contains s.start ∨ w.Contains s.stop) :
    ∃ c, s.clip? w = some c ∧ (w.Contains s.start → c.start.Same s.start) ∧
      (w.Contains s.stop → c.stop = s.partway 1.0) := by
  have hzero := isPart_zero_and_one.1
  have hone := isPart_zero_and_one.2
  have hstart (hin : w.Contains s.start) :=
    (keeps_all hzero).foldlM hzero (admits_of_contains_start h hin)
  have hstop (hin : w.Contains s.stop) :=
    (keeps_all hone).foldlM hone (admits_of_contains_stop h hin)
  obtain ⟨kept, hfold⟩ : ∃ kept, (s.edges w).foldlM cutEdge? (0.0, 1.0) = some kept :=
    hin.elim (fun hin => (hstart hin).imp fun _ h => h.1) fun hin => (hstop hin).imp fun _ h => h.1
  refine ⟨_, clip?_of_foldlM h hfold, fun hin => ?_, fun hin => ?_⟩
  · obtain ⟨kept', hfold', hnarrows⟩ := hstart hin
    cases hfold.symm.trans hfold'
    change (s.partway kept.1).Same s.start
    rw [hnarrows.first rfl]
    exact same_partway_zero h
  · obtain ⟨kept', hfold', hnarrows⟩ := hstop hin
    cases hfold.symm.trans hfold'
    change s.partway kept.2 = s.partway 1.0
    rw [hnarrows.last rfl]

/-- A line with an end inside the window is not cut away. Its start, if it is inside, stays where
it is; its stop, if it is inside, stays exactly if the whole way leads there. -/
theorem clip?_of_contains (h : s.IsFinite) (hin : w.Contains s.start ∨ w.Contains s.stop) :
    ∃ c, s.clip? w = some c ∧ (w.Contains s.start → c.start.Same s.start) ∧
      (w.Contains s.stop → (c.stop.Same s.stop ↔ s.Arrives) ∧
        (s.IsExact → c.stop.Same s.stop)) := by
  obtain ⟨c, hclip, hstart, hstop⟩ := exists_clip_of_contains h hin
  refine ⟨c, hclip, hstart, fun hin => ?_⟩
  rw [hstop hin]
  exact ⟨Iff.rfl, fun he => he.arrives h⟩

def entering : Segment := ⟨⟨-5, 2⟩, ⟨3, 2⟩⟩

theorem clip?_entering : (entering.IsFinite ∧ (Window.ofSize 5 5).Contains entering.stop) ∧
    ∃ c, entering.clip? (.ofSize 5 5) = some c ∧ c.stop.Same entering.stop := by
  have hfinite : entering.IsFinite := ⟨by decide +kernel, by decide +kernel⟩
  have hin : (Window.ofSize 5 5).Contains entering.stop := by decide +kernel
  have harrives : entering.Arrives := by decide +kernel
  obtain ⟨c, hc, -, hstop⟩ := clip?_of_contains hfinite (.inr hin)
  exact ⟨⟨hfinite, hin⟩, c, hc, (hstop hin).1.2 harrives⟩

/-- Between whole positions that words reach, both ends stay where they are. -/
theorem Joins.exists_clip {x₀ y₀ x₁ y₁ : Int} (h : s.Joins x₀ y₀ x₁ y₁)
    (hin : w.Contains s.start ∨ w.Contains s.stop) :
    ∃ c, s.clip? w = some c ∧ (w.Contains s.start → c.start.Same s.start) ∧
      (w.Contains s.stop → c.stop.Same s.stop) := by
  obtain ⟨hfinite, hexact⟩ := h.isExact
  obtain ⟨c, hclip, hstart, hstop⟩ := exists_clip_of_contains hfinite hin
  refine ⟨c, hclip, hstart, fun hin => ?_⟩
  rw [hstop hin]
  exact hexact.arrives hfinite

def enteringFar : Segment := ⟨⟨-9007199254740992, 0⟩, ⟨1, 0⟩⟩

/-- Its stop is inside the window and is moved, so that it is no longer painted. -/
theorem clip?_moves_stop : enteringFar.IsFinite ∧ (Window.ofSize 2 1).Contains enteringFar.stop ∧
    (¬ ∃ c, enteringFar.clip? (.ofSize 2 1) = some c ∧ c.stop.Same enteringFar.stop) ∧
      (1, 0) ∉ enteringFar.pixelsOn 2 1 := by
  have hmoved : ((enteringFar.clip? (.ofSize 2 1)).any fun c => c.stop.Same enteringFar.stop) =
      false := by decide +kernel
  refine ⟨⟨by decide +kernel, by decide +kernel⟩, by decide +kernel, ?_, by decide +kernel⟩
  rintro ⟨c, hc, hsame⟩
  rw [hc, Option.any_some, decide_eq_true hsame] at hmoved
  cases hmoved

end Segment

end PatternScript
