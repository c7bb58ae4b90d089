import PatternScript.Proofs.Culling.Keeping
import PatternScript.Proofs.Culling.Painting

/-!
# Stopped renderings

A rendering polls its signal once for each item that it judges and then once for each survivor
that it paints, and the first poll that finds the signal up is its last one. What every poll
finds can be told from what raises the signal: whoever raised it before, the host, and a
watched pixel among those that were marked up to then. So the number of polls that find it down
decides which items are painted and what the counts say.
-/
namespace PatternScript

theorem Canvas.WellFormed.cells_fit {c : Canvas} {block : Int32} (hc : c.WellFormed) :
    Coverage.cellCount c.width c.height block < 2147483648 :=
  Int.lt_of_le_of_lt (Coverage.cellCount_le block hc.width_nonneg hc.height_nonneg) hc.count_fits

namespace Culling

def judgeEach (width height : Int32) (items : List Item) (culling : Culling) : Culling :=
  items.foldl (fun culling item => culling.judge width height item) culling

variable {width height : Int32} {culling : Culling}

theorem signal_judge (width height : Int32) (item : Item) (culling : Culling) :
    (culling.judge width height item).signal = culling.signal ∧
      (culling.judge width height item).stopped = culling.stopped := by
  rw [judge]
  split
  · exact ⟨rfl, rfl⟩
  · split
    · exact ⟨rfl, rfl⟩
    · exact ⟨rfl, rfl⟩

theorem judge_setSignal (culling : Culling) (s : Signal) (item : Item) :
    { culling with signal := s }.judge width height item =
      { culling.judge width height item with signal := s } := by
  rw [judge, judge]
  cases item.bounds? width height with
  | none => rfl
  | some b =>
    dsimp only
    split <;> rfl

theorem judgeEach_setSignal (culling : Culling) (s : Signal) (items : List Item) :
    judgeEach width height items { culling with signal := s } =
      { judgeEach width height items culling with signal := s } := by
  rw [judgeEach, judgeEach]
  induction items generalizing culling with
  | nil => rfl
  | cons item items ih => rw [List.foldl_cons, judge_setSignal, ih, List.foldl_cons]

theorem counts_judge (culling : Culling) (item : Item) :
    (culling.judge width height item).offScreen + (culling.judge width height item).occluded +
        (culling.judge width height item).survivors.length =
      culling.offScreen + culling.occluded + culling.survivors.length + 1 := by
  rw [judge]
  cases item.bounds? width height with
  | none => dsimp only; omega
  | some b =>
    dsimp only
    split
    · dsimp only; omega
    · dsimp only [List.length_cons]; omega

theorem counts_judgeEach (items : List Item) :
    (judgeEach width height items culling).offScreen +
          (judgeEach width height items culling).occluded +
        (judgeEach width height items culling).survivors.length =
      culling.offScreen + culling.occluded + culling.survivors.length + items.length := by
  rw [judgeEach]
  induction items generalizing culling with
  | nil => rfl
  | cons item items ih =>
    rw [List.foldl_cons, ih, counts_judge, List.length_cons]
    omega

theorem survivors_judge (item : Item) :
    ((culling.judge width height item).survivors.map Survivor.item).Sublist
      (item :: culling.survivors.map Survivor.item) := by
  rw [judge]
  cases item.bounds? width height with
  | none => exact List.sublist_cons_self _ _
  | some b =>
    dsimp only
    split
    · exact List.sublist_cons_self _ _
    · exact List.Sublist.refl _

theorem survivors_judgeEach (items : List Item) :
    ((judgeEach width height items culling).survivors.map Survivor.item).Sublist
      (items.reverse ++ culling.survivors.map Survivor.item) := by
  rw [judgeEach]
  induction items generalizing culling with
  | nil => exact List.Sublist.refl _
  | cons item items ih =>
    rw [List.foldl_cons, List.reverse_cons, List.append_assoc]
    exact ih.trans ((List.append_sublist_append_left _).2 (survivors_judge item))

theorem follows_judgeEach {block : Int32} {later : List Item}
    (fits : Coverage.cellCount width height block < 2147483648) (items : List Item)
    (h : Follows width height block later culling) :
    Follows width height block (items.reverse ++ later)
      (judgeEach width height items culling) := by
  rw [judgeEach]
  induction items generalizing later culling with
  | nil => exact h
  | cons item items ih =>
    rw [List.foldl_cons, List.reverse_cons, List.append_assoc]
    exact ih (follows_judge fits h item)

end Culling

namespace Rendering

section Polls

variable (ctx : RenderContext) (options : RenderSettings) (items : List Item) (c : Canvas)
  (signal : Signal)

def unjudged (s : Signal) : Culling where
  coverage := .new c.width c.height options.block
  signal := s

def judgedOf (count : Nat) : Culling :=
  Culling.judgeEach c.width c.height (items.reverse.take count) (unjudged options c {})

/-- The items that are painted when nobody stops the rendering, in their order. -/
def survivors : List Survivor :=
  (Culling.judgeEach c.width c.height items.reverse (unjudged options c {})).survivors

def marksBefore (i : Nat) : List Mark :=
  Mark.box 0 0 c.width c.height options.background ::
    Survivor.allMarks c.width c.height ((survivors options items c).take (i - items.length))

/-- Whether anything has raised the signal when the surface has the marks before the poll
numbered `i` and the host has had the chance to raise it before so many polls. -/
def raisedBy (i polls : Nat) : Bool :=
  signal.raised ||
    (ctx.watch.any fun w => (marksBefore options items c i).any (w.sees c.width c.height)) ||
    (List.range polls).any fun k => ctx.host.atPoll (signal.polls + k)

/-- Whether the poll of a number, counted from zero over both passes, finds the signal up. -/
def observes (i : Nat) : Bool := ctx.attached && raisedBy ctx options items c signal i (i + 1)

def StopsAt (i : Nat) : Prop :=
  observes ctx options items c signal i = true ∧
    ∀ k < i, observes ctx options items c signal k = false

def Heard (i : Nat) (s : Signal) : Prop :=
  ctx.attached = true →
    s.polls = signal.polls + i ∧ s.raised = raisedBy ctx options items c signal i i

/-- Of so many polls, from the one numbered `i` on, the first `j` find the signal down, and the
next one, if it is among them, finds it up. -/
structure FirstUp (i count j : Nat) : Prop where
  le : j ≤ count
  down : ∀ k < j, observes ctx options items c signal (i + k) = false
  up : j < count → observes ctx options items c signal (i + j) = true

theorem FirstUp.exists_of_count (i count : Nat) :
    ∃ j, FirstUp ctx options items c signal i count j := by
  induction count with
  | zero => exact ⟨0, Nat.le_refl 0, nofun, nofun⟩
  | succ count ih =>
    obtain ⟨j, h⟩ := ih
    by_cases hj : j < count
    · exact ⟨j, Nat.le_succ_of_le h.le, h.down, fun _ => h.up hj⟩
    · obtain rfl : j = count := Nat.le_antisymm h.le (Nat.le_of_not_lt hj)
      cases hup : observes ctx options items c signal (i + j) with
      | true => exact ⟨j, Nat.le_succ j, h.down, fun _ => hup⟩
      | false =>
        refine ⟨j + 1, Nat.le_refl _, ?_, fun h => absurd h (Nat.lt_irrefl _)⟩
        intro k hk
        rcases Nat.lt_succ_iff_lt_or_eq.1 hk with hk | rfl
        · exact h.down k hk
        · exact hup

def judged : Culling :=
  Culling.judgeAll ctx c.width c.height items.reverse {
    coverage := .new c.width c.height options.block
    signal := ctx.afterMarks c.width c.height
      [Mark.box 0 0 c.width c.height options.background] signal }

def cleared : Rendering where
  canvas := c.clear options.background
  coverage := (judged ctx options items c signal).coverage
  stats := {
    total := items.length
    offScreen := (judged ctx options items c signal).offScreen
    occluded := (judged ctx options items c signal).occluded
    interrupted := (judged ctx options items c signal).stopped }
  signal := (judged ctx options items c signal).signal

theorem run_eq : run ctx options items c signal =
    if (judged ctx options items c signal).stopped then cleared ctx options items c signal
    else (cleared ctx options items c signal).paint ctx
      (judged ctx options items c signal).survivors := rfl

variable {ctx options items c signal} {i j count : Nat} {s : Signal}

theorem survivors_judgedOf :
    (judgedOf options items c items.length).survivors = survivors options items c := by
  rw [judgedOf, List.take_of_length_le (Nat.le_of_eq List.length_reverse), survivors]

theorem sublist_survivors :
    ((survivors options items c).map Survivor.item).Sublist items := by
  have h : ((survivors options items c).map Survivor.item).Sublist (items.reverse.reverse ++ []) :=
    Culling.survivors_judgeEach items.reverse
  rwa [List.reverse_reverse, List.append_nil] at h

theorem keeps_survivors (hc : c.WellFormed) :
    Keeps c.width c.height options.block items (survivors options items c) := by
  have h : Keeps c.width c.height options.block (items.reverse.reverse ++ [])
      (survivors options items c) :=
    (Culling.follows_judgeEach hc.cells_fit items.reverse Culling.follows_nil).keeps
  rwa [List.reverse_reverse, List.append_nil] at h

namespace FirstUp

theorem of_stopsAt (h : StopsAt ctx options items c signal j) (hj : j < count) :
    FirstUp ctx options items c signal 0 count j where
  le := Nat.le_of_lt hj
  down k hk := by
    rw [Nat.zero_add]
    exact h.2 k hk
  up _ := by
    rw [Nat.zero_add]
    exact h.1

theorem lt_iff (h : FirstUp ctx options items c signal 0 count j) :
    j < count ↔ ∃ i < count, observes ctx options items c signal i = true := by
  constructor
  · intro hj
    refine ⟨j, hj, ?_⟩
    rw [← Nat.zero_add j]
    exact h.up hj
  · intro hup
    obtain ⟨i, hi, hup⟩ := hup
    refine Nat.lt_of_not_le fun hj => ?_
    have hdown := h.down i (Nat.lt_of_lt_of_le hi hj)
    rw [Nat.zero_add, hup] at hdown
    cases hdown

theorem next (h : FirstUp ctx options items c signal i (count + 1) (j + 1)) :
    FirstUp ctx options items c signal (i + 1) count j where
  le := Nat.le_of_succ_le_succ h.le
  down k hk := by
    rw [Nat.add_right_comm]
    exact h.down (k + 1) (Nat.succ_lt_succ hk)
  up hj := by
    rw [Nat.add_right_comm]
    exact h.up (Nat.succ_lt_succ hj)

theorem first {later : Nat} (h : FirstUp ctx options items c signal i (count + later) j) :
    FirstUp ctx options items c signal i count (min j count) where
  le := Nat.min_le_right j count
  down k hk := h.down k (Nat.lt_of_lt_of_le hk (Nat.min_le_left j count))
  up hj := by
    have hlt : j < count := by omega
    rw [Nat.min_eq_left (Nat.le_of_lt hlt)]
    exact h.up (Nat.lt_add_right later hlt)

theorem second {later : Nat} (h : FirstUp ctx options items c signal i (count + later) j)
    (hj : count ≤ j) : FirstUp ctx options items c signal (i + count) later (j - count) where
  le := Nat.sub_le_iff_le_add'.2 h.le
  down k hk := by
    rw [Nat.add_assoc]
    exact h.down (count + k) (by omega)
  up hlt := by
    rw [Nat.add_assoc, Nat.add_sub_cancel' hj]
    exact h.up (by omega)

end FirstUp

theorem heard_start : Heard ctx options items c signal 0 (ctx.afterMarks c.width c.height
    [Mark.box 0 0 c.width c.height options.background] signal) := by
  intro _
  refine ⟨rfl, ?_⟩
  simp [RenderContext.afterMarks, Signal.raiseIf, raisedBy, marksBefore, Survivor.allMarks]

theorem stops_eq_observes (h : Heard ctx options items c signal i s) :
    ctx.stops (ctx.poll s) = observes ctx options items c signal i := by
  rw [RenderContext.stops, observes]
  cases hattached : ctx.attached with
  | false => rfl
  | true =>
    obtain ⟨hpolls, hraised⟩ := h hattached
    simp [RenderContext.poll, hattached, Signal.poll, hpolls, hraised, raisedBy, List.range_succ,
      Bool.or_assoc]

theorem heard_poll (h : Heard ctx options items c signal i s) {marks : List Mark}
    (hmarks : marksBefore options items c (i + 1) = marksBefore options items c i ++ marks) :
    Heard ctx options items c signal (i + 1)
      (ctx.afterMarks c.width c.height marks (ctx.poll s)) := by
  intro hattached
  obtain ⟨hpolls, hraised⟩ := h hattached
  refine ⟨by simp [RenderContext.afterMarks, RenderContext.poll, hattached, Signal.raiseIf,
    Signal.poll, hpolls, Nat.add_assoc], ?_⟩
  simp only [RenderContext.afterMarks, RenderContext.poll, hattached, if_true, Signal.raiseIf,
    Signal.poll, hpolls, hraised, raisedBy, List.range_succ, List.any_append, List.any_cons,
    List.any_nil, Bool.or_false, hmarks]
  cases ctx.watch with
  | none => simp [Bool.or_assoc]
  | some w =>
    simp only [Option.any_some]
    ac_rfl

theorem afterMarks_nil (s : Signal) : ctx.afterMarks c.width c.height [] s = s := by
  simp [RenderContext.afterMarks, Signal.raiseIf]

theorem marksBefore_of_le (h : i ≤ items.length) : marksBefore options items c i =
    [Mark.box 0 0 c.width c.height options.background] := by
  rw [marksBefore, Nat.sub_eq_zero_of_le h]
  rfl

theorem marksBefore_next {before later : List Survivor} {t : Survivor}
    (hkept : survivors options items c = before ++ t :: later) :
    marksBefore options items c (items.length + before.length + 1) =
      marksBefore options items c (items.length + before.length) ++
        t.item.marks c.width c.height t.visual := by
  have hbefore : (before ++ t :: later).take (before.length + 1) = before ++ [t] := by
    rw [List.take_length_add_append, List.take_succ_cons, List.take_zero]
  simp [marksBefore, hkept, hbefore, Nat.add_assoc, Survivor.allMarks]

theorem judgeAll_eq (earlier : List Item) (culling : Culling) {i j : Nat}
    (hgoing : culling.stopped = false) (hfit : i + earlier.length ≤ items.length)
    (heard : Heard ctx options items c signal i culling.signal)
    (h : FirstUp ctx options items c signal i earlier.length j) :
    ∃ s, Heard ctx options items c signal (i + j) s ∧
      Culling.judgeAll ctx c.width c.height earlier culling =
        { Culling.judgeEach c.width c.height (earlier.take j) culling with
          signal := if j < earlier.length then ctx.poll s else s
          stopped := decide (j < earlier.length) } := by
  -- Each step has to know what the next poll finds, so the induction carries `Heard` along.
  induction earlier generalizing i j culling with
  | nil =>
    obtain rfl : j = 0 := Nat.le_zero.1 h.le
    refine ⟨culling.signal, heard, ?_⟩
    simp [Culling.judgeAll, Culling.judgeEach, ← hgoing]
  | cons item earlier ih =>
    have hpoll := stops_eq_observes heard
    cases j with
    | zero =>
      have hup : observes ctx options items c signal i = true := h.up (Nat.succ_pos _)
      refine ⟨culling.signal, heard, ?_⟩
      simp [Culling.judgeAll, hpoll, hup, Culling.judgeEach]
    | succ j =>
      have hdown : observes ctx options items c signal i = false := h.down 0 (Nat.succ_pos _)
      rw [List.length_cons] at hfit
      have hmarks : marksBefore options items c (i + 1) =
          marksBefore options items c i ++ [] := by
        rw [marksBefore_of_le (by omega), marksBefore_of_le (by omega), List.append_nil]
      have hnext := heard_poll heard hmarks
      rw [afterMarks_nil] at hnext
      obtain ⟨hsignal, hstopped⟩ := Culling.signal_judge c.width c.height item
        { culling with signal := ctx.poll culling.signal }
      obtain ⟨s, hs, heq⟩ := ih _ (hstopped.trans hgoing) (by omega) (by rwa [hsignal]) h.next
      refine ⟨s, by rwa [Nat.add_comm j, ← Nat.add_assoc], ?_⟩
      rw [Culling.judgeAll]
      simp only [hpoll, hdown, Bool.false_eq_true, if_false]
      rw [heq, Culling.judge_setSignal, Culling.judgeEach_setSignal]
      simp [Culling.judgeEach]

theorem paint_eq (before later : List Survivor) {j : Nat} {r : Rendering}
    (hkept : survivors options items c = before ++ later) (same : c.SameSize r.canvas)
    (hgoing : r.stats.interrupted = false)
    (heard : Heard ctx options items c signal (items.length + before.length) r.signal)
    (h : FirstUp ctx options items c signal (items.length + before.length) later.length j) :
    ∃ s, Heard ctx options items c signal (items.length + before.length + j) s ∧
      paint ctx later r =
        { canvas := r.canvas.drawAll (Survivor.allMarks c.width c.height (later.take j))
          coverage := r.coverage
          stats := { r.stats with
            rendered := r.stats.rendered + j
            interrupted := decide (j < later.length) }
          signal := if j < later.length then ctx.poll s else s } := by
  induction later generalizing before j r with
  | nil =>
    obtain rfl : j = 0 := Nat.le_zero.1 h.le
    refine ⟨r.signal, heard, ?_⟩
    simp [paint, Survivor.allMarks, Canvas.drawAll, ← hgoing]
  | cons t later ih =>
    have hpoll := stops_eq_observes heard
    cases j with
    | zero =>
      have hup : observes ctx options items c signal (items.length + before.length) = true :=
        h.up (Nat.succ_pos _)
      refine ⟨r.signal, heard, ?_⟩
      simp [paint, hpoll, hup, Survivor.allMarks, Canvas.drawAll]
    | succ j =>
      have hdown : observes ctx options items c signal (items.length + before.length) = false :=
        h.down 0 (Nat.succ_pos _)
      have hnext := heard_poll heard (marksBefore_next hkept)
      have hplace : items.length + (before ++ [t]).length =
          items.length + before.length + 1 := by
        rw [List.length_append, List.length_singleton, Nat.add_assoc]
      have hkept' : survivors options items c = (before ++ [t]) ++ later := by
        rw [hkept, List.append_assoc, List.singleton_append]
      rw [← hplace] at hnext
      obtain ⟨s, hs, heq⟩ := ih (before ++ [t]) (r := {
          canvas := r.canvas.drawAll (t.item.marks c.width c.height t.visual)
          coverage := r.coverage
          stats := { r.stats with rendered := r.stats.rendered + 1 }
          signal := ctx.afterMarks c.width c.height (t.item.marks c.width c.height t.visual)
            (ctx.poll r.signal) })
        hkept' (same.trans (r.canvas.sameSize_drawAll _)) hgoing hnext
        (by rw [hplace]; exact h.next)
      refine ⟨s, by rwa [Nat.add_comm j, ← Nat.add_assoc, ← hplace], ?_⟩
      rw [paint]
      simp only [hpoll, hdown, Bool.false_eq_true, if_false, same.width_eq, same.height_eq]
      rw [heq]
      simp [Survivor.allMarks, Canvas.drawAll_append, Nat.add_assoc, Nat.add_comm 1]

theorem judged_eq (h : FirstUp ctx options items c signal 0 items.length j) :
    ∃ s, Heard ctx options items c signal j s ∧
      judged ctx options items c signal =
        { judgedOf options items c j with
          signal := if j < items.length then ctx.poll s else s
          stopped := decide (j < items.length) } := by
  have hlength : items.reverse.length = items.length := List.length_reverse
  rw [← hlength] at h
  have hfit : 0 + items.reverse.length ≤ items.length :=
    Nat.le_of_eq (by rw [hlength, Nat.zero_add])
  have hstart (s : Signal) : Culling.judgeEach c.width c.height (items.reverse.take j)
      (unjudged options c s) = { judgedOf options items c j with signal := s } :=
    Culling.judgeEach_setSignal (unjudged options c {}) s _
  obtain ⟨s, heard, heq⟩ :=
    judgeAll_eq items.reverse (unjudged options c _) rfl hfit heard_start h
  rw [Nat.zero_add] at heard
  rw [hstart, hlength] at heq
  exact ⟨s, heard, heq⟩

theorem run_of_firstUp (h : FirstUp ctx options items c signal 0
      (items.length + (survivors options items c).length) j) :
    (run ctx options items c signal).canvas = (c.clear options.background).drawAll
        (Survivor.allMarks c.width c.height
          ((survivors options items c).take (j - items.length))) ∧
      (run ctx options items c signal).stats = {
        total := items.length
        rendered := j - items.length
        offScreen := (judgedOf options items c (min j items.length)).offScreen
        occluded := (judgedOf options items c (min j items.length)).occluded
        interrupted := decide (j < items.length + (survivors options items c).length) } ∧
      ∃ s, Heard ctx options items c signal j s ∧ (run ctx options items c signal).signal =
        if j < items.length + (survivors options items c).length then ctx.poll s else s := by
  obtain ⟨s, heard, heq⟩ := judged_eq h.first
  by_cases hj : j < items.length
  · have hlater : j < items.length + (survivors options items c).length :=
      Nat.lt_add_right _ hj
    rw [Nat.min_eq_left (Nat.le_of_lt hj)] at heard heq ⊢
    have hrun : run ctx options items c signal = cleared ctx options items c signal := by
      rw [run_eq, if_pos (by simp [heq, hj])]
    rw [hrun, Nat.sub_eq_zero_of_le (Nat.le_of_lt hj)]
    refine ⟨rfl, ?_, s, heard, ?_⟩
    · simp [cleared, heq, hj, hlater]
    · simp [cleared, heq, hj, hlater]
  · -- The judging pass is complete, and the polls that are left are those of the painting pass.
    have hle : items.length ≤ j := Nat.le_of_not_lt hj
    rw [Nat.min_eq_right hle] at heard heq ⊢
    simp only [Nat.lt_irrefl, if_false, decide_false] at heq
    have hrun : run ctx options items c signal = (cleared ctx options items c signal).paint ctx
        (survivors options items c) := by
      rw [run_eq, if_neg (by simp [heq]), heq, survivors_judgedOf]
    obtain ⟨s', heard', hpaint⟩ := paint_eq [] (survivors options items c)
      (j := j - items.length) (r := cleared ctx options items c signal) rfl
      (c.sameSize_clear options.background) (by simp [cleared, heq])
      (by simpa [cleared, heq] using heard) (by simpa using h.second hle)
    have hrest : j - items.length < (survivors options items c).length ↔
        j < items.length + (survivors options items c).length := by omega
    rw [hrun, hpaint]
    refine ⟨rfl, ?_, s', ?_, ?_⟩
    · simp [cleared, heq, hrest]
    · simpa [hle] using heard'
    · simp [hrest]

theorem polls_run (h : StopsAt ctx options items c signal i)
    (hi : i < items.length + (survivors options items c).length) :
    (run ctx options items c signal).signal.polls = signal.polls + (i + 1) := by
  obtain ⟨-, -, s, heard, hsignal⟩ := run_of_firstUp (.of_stopsAt h hi)
  have hattached : ctx.attached = true := (Bool.and_eq_true_iff.1 h.1).1
  rw [hsignal, if_pos hi, RenderContext.poll, if_pos hattached, Signal.poll, (heard hattached).1,
    Nat.add_assoc]

theorem interrupted_iff : (run ctx options items c signal).stats.interrupted = true ↔
    ∃ i < items.length + (survivors options items c).length,
      observes ctx options items c signal i = true := by
  obtain ⟨j, h⟩ := FirstUp.exists_of_count ctx options items c signal 0
    (items.length + (survivors options items c).length)
  obtain ⟨-, hstats, -⟩ := run_of_firstUp h
  rw [hstats, decide_eq_true_iff, h.lt_iff]

theorem completed_iff : (run ctx options items c signal).completed = true ↔
    ∀ i < items.length + (survivors options items c).length,
      observes ctx options items c signal i = false := by
  rw [completed, Bool.not_eq_true', ← Bool.not_eq_true, interrupted_iff]
  simp

theorem firstUp_of_completed (hcompleted : (run ctx options items c signal).completed = true) :
    FirstUp ctx options items c signal 0 (items.length + (survivors options items c).length)
      (items.length + (survivors options items c).length) where
  le := Nat.le_refl _
  down k hk := by
    rw [Nat.zero_add]
    exact completed_iff.1 hcompleted k hk
  up hlt := absurd hlt (Nat.lt_irrefl _)

theorem run_of_completed (hcompleted : (run ctx options items c signal).completed = true) :
    (run ctx options items c signal).canvas = (c.clear options.background).drawAll
        (Survivor.allMarks c.width c.height (survivors options items c)) ∧
      (run ctx options items c signal).stats.rendered = (survivors options items c).length := by
  obtain ⟨hcanvas, hstats, -⟩ := run_of_firstUp (firstUp_of_completed hcompleted)
  rw [Nat.add_sub_cancel_left] at hcanvas hstats
  rw [List.take_length] at hcanvas
  exact ⟨hcanvas, congrArg RenderCounts.rendered hstats⟩

theorem completed_undisturbed (hdown : signal.raised = false) :
    (run {} options items c signal).completed = true :=
  completed_iff.2 fun i _ => by simp [observes, raisedBy, Host.quiet, hdown]

theorem run_undisturbed (hdown : signal.raised = false) :
    (run {} options items c signal).canvas = (run {} options items c {}).canvas ∧
      (run {} options items c signal).stats = (run {} options items c {}).stats := by
  have hdone : (run {} options items c signal).completed = true := completed_undisturbed hdown
  have hdone' : (run {} options items c {}).completed = true := completed_undisturbed rfl
  obtain ⟨hcanvas, hstats, -⟩ := run_of_firstUp (firstUp_of_completed hdone)
  obtain ⟨hcanvas', hstats', -⟩ := run_of_firstUp (firstUp_of_completed hdone')
  exact ⟨hcanvas.trans hcanvas'.symm, hstats.trans hstats'.symm⟩

theorem counts_judgedOf (options : RenderSettings) (c : Canvas) (h : j ≤ items.length) :
    (judgedOf options items c j).offScreen + (judgedOf options items c j).occluded +
      (judgedOf options items c j).survivors.length = j := by
  rw [judgedOf, Culling.counts_judgeEach]
  simp [unjudged, h]

theorem total_run : (run ctx options items c signal).stats.total = items.length := by
  obtain ⟨j, h⟩ := FirstUp.exists_of_count ctx options items c signal 0
    (items.length + (survivors options items c).length)
  exact congrArg RenderCounts.total (run_of_firstUp h).2.1

theorem counts_run :
    let r := run ctx options items c signal
    r.stats.rendered + r.stats.offScreen + r.stats.occluded ≤ r.stats.total ∧
      (r.stats.rendered + r.stats.offScreen + r.stats.occluded = r.stats.total ↔
        r.completed = true) := by
  intro r
  obtain ⟨j, h⟩ := FirstUp.exists_of_count ctx options items c signal 0
    (items.length + (survivors options items c).length)
  obtain ⟨-, hstats, -⟩ := run_of_firstUp h
  have hle := h.le
  have hcounts := counts_judgedOf options c (Nat.min_le_right j items.length)
  simp only [r, completed, hstats]
  simp only [Bool.not_eq_true', decide_eq_false_iff_not, Nat.not_lt]
  by_cases hj : j < items.length
  · rw [Nat.min_eq_left (Nat.le_of_lt hj)] at hcounts ⊢
    omega
  · rw [Nat.min_eq_right (Nat.le_of_not_lt hj)] at hcounts ⊢
    rw [survivors_judgedOf] at hcounts
    omega

variable (ctx options items c signal)

theorem run_stops_at_first_observed :
    let kept := survivors options items c
    let r := run ctx options items c signal
    (kept.map Survivor.item).Sublist items ∧
      (c.WellFormed → Keeps c.width c.height options.block items kept) ∧
      r.stats.total = items.length ∧
      (r.completed = false ↔ r.stats.interrupted = true) ∧
      (r.stats.interrupted = true ↔ ∃ i < items.length + kept.length,
        observes ctx options items c signal i = true) ∧
      (∀ i < items.length, StopsAt ctx options items c signal i →
        r.canvas = c.clear options.background ∧
          (c.WellFormed → ∀ x y, c.On x y → r.canvas.pixel? x y = some options.background) ∧
          r.stats.rendered = 0 ∧ r.signal.polls = signal.polls + (i + 1)) ∧
      (∀ k < kept.length, StopsAt ctx options items c signal (items.length + k) →
        r.canvas = (c.clear options.background).drawAll
            (Survivor.allMarks c.width c.height (kept.take k)) ∧
          r.stats.rendered = k ∧ r.signal.polls = signal.polls + (items.length + k + 1)) ∧
      (r.completed = true →
        r.canvas = (c.clear options.background).drawAll
            (Survivor.allMarks c.width c.height kept) ∧
          r.stats.rendered = kept.length) ∧
      r.stats.rendered + r.stats.offScreen + r.stats.occluded ≤ r.stats.total ∧
      (r.stats.rendered + r.stats.offScreen + r.stats.occluded = r.stats.total ↔
        r.completed = true) := by
  intro kept r
  refine ⟨sublist_survivors, keeps_survivors, total_run, ?returned, interrupted_iff, ?judging,
    ?painting, run_of_completed, counts_run⟩
  case returned => simp [completed]
  case judging =>
    intro i hi hstops
    have hlater : i < items.length + kept.length := Nat.lt_add_right _ hi
    obtain ⟨hcanvas, hstats, -⟩ := run_of_firstUp (.of_stopsAt hstops hlater)
    rw [Nat.sub_eq_zero_of_le (Nat.le_of_lt hi)] at hcanvas hstats
    refine ⟨hcanvas, ?_, congrArg RenderCounts.rendered hstats, polls_run hstops hlater⟩
    intro hc x y hon
    rw [hcanvas]
    exact Canvas.pixel?_clear hc hon
  case painting =>
    intro k hk hstops
    have hlater : items.length + k < items.length + kept.length := Nat.add_lt_add_left hk _
    obtain ⟨hcanvas, hstats, -⟩ := run_of_firstUp (.of_stopsAt hstops hlater)
    rw [Nat.add_sub_cancel_left] at hcanvas hstats
    exact ⟨hcanvas, congrArg RenderCounts.rendered hstats, polls_run hstops hlater⟩

def twoPoints : List Item :=
  [0, 1].map fun x =>
    { shape := .pixel, line := 1, params := (NameMap.empty.set "X" x).set "Y" 0 }

def watchingFirst : RenderContext := { watch := some ⟨0, 0, .black⟩ }

theorem run_stops_at_first_observed_of_watched :
    StopsAt watchingFirst { block := 1 } twoPoints (.blank 2 1) {} 3 ∧
      (run watchingFirst { block := 1 } twoPoints (.blank 2 1) {}).canvas.pixels =
        #[.black, .white] ∧
      (run watchingFirst { block := 1 } twoPoints (.blank 2 1) {}).stats.rendered = 1 := by
  have hlength : (survivors { block := 1 } twoPoints (.blank 2 1)).length = 2 := by decide +kernel
  have hstops : StopsAt watchingFirst { block := 1 } twoPoints (.blank 2 1) {} 3 := by
    rw [StopsAt]
    decide +kernel
  obtain ⟨-, -, -, -, -, -, hpainting, -⟩ :=
    run_stops_at_first_observed watchingFirst { block := 1 } twoPoints (.blank 2 1) {}
  obtain ⟨hcanvas, hrendered, -⟩ := hpainting 1 (by rw [hlength]; decide) hstops
  refine ⟨hstops, ?_, hrendered⟩
  rw [hcanvas]
  decide +kernel

end Polls

end Rendering

end PatternScript
