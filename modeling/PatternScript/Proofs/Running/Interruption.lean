import PatternScript.Proofs.Running.Visits

/-!
# Interrupted runs

A run is the effect of its visits in turn: apart from the signal, its last state is that of
the commands it got to, each doing its own part. A run that may be interrupted makes the same
visits as one that nobody interrupts for as long as its signal is down, and none from then
on. So its items and its errors are the first ones of the whole run, and all of them when it
was left to finish.
-/
namespace PatternScript

variable {host : Host} {patterns : PatternTable} {index : Option Int32} {g g' : Generation}

def Command.enter (patterns : PatternTable) (index : Option Int32) (c : Command)
    (g : Generation) : Generation :=
  match c with
  | .act line a => g.act patterns line index a
  | .loop .. | .choice .. => g.fault c.line (c.faults patterns index g)

def Visit.apply (patterns : PatternTable) (g : Generation) (v : Visit) : Generation :=
  v.command.enter patterns v.index g

namespace Generation

/-- A state apart from the signal, which decides only how far a run gets. -/
def still (g : Generation) : Generation := { g with signal := {} }

section Still

theorem still_poll (host : Host) (g : Generation) : (g.poll host).still = g.still := rfl

theorem still_yieldIf (p : Prop) [Decidable p] (host : Host) (g : Generation) :
    (if p then g.yield host else g).still = g.still := by
  split <;> rfl

theorem still_fault (line : Nat) (causes : List RuntimeCause) (g : Generation) :
    (g.fault line causes).still = g.still.fault line causes := rfl

theorem fault_fault (line : Nat) (causes causes' : List RuntimeCause) (g : Generation) :
    (g.fault line causes).fault line causes' = g.fault line (causes ++ causes') := by
  have hnotices : (g.notices ++ causes.map fun c => Notice.fault ⟨line, c⟩) ++
      (causes'.map fun c => Notice.fault ⟨line, c⟩) =
      g.notices ++ (causes ++ causes').map fun c => Notice.fault ⟨line, c⟩ :=
    Array.ext' (by simp)
  rw [fault, fault, fault, ← hnotices]

theorem vars_eq_of_still (h : g.still = g'.still) : g.vars = g'.vars :=
  show g.still.vars = g'.still.vars from congrArg _ h

theorem still_transform (line : Nat) (t : Affine) (g : Generation) :
    (g.transform line t).still = g.still.transform line t := by
  have hpen : g.still.pen = g.pen := rfl
  rw [transform, transform, hpen]
  split <;> rfl

theorem still_draw (line : Nat) (shape : Shape) (args : Arguments) (g : Generation) :
    (g.draw patterns line index shape args).still =
      g.still.draw patterns line index shape args := by
  have hparams : g.still.shapeParams index args shape.params =
      g.shapeParams index args shape.params := by
    induction shape.params with
    | nil => rfl
    | cons key rest ih => rw [shapeParams, shapeParams, ih]; rfl
  rw [draw, draw, hparams]
  dsimp only
  split
  · split <;> rfl
  · rfl

theorem still_act (line : Nat) (a : Action) (g : Generation) :
    (g.act patterns line index a).still = g.still.act patterns line index a := by
  cases a with
  | declare name init => cases init <;> rfl
  | assign name value =>
    have hvars : g.still.vars = g.vars := rfl
    rw [act, act, hvars]
    dsimp only
    split <;> rfl
  | color args | fill args | resetTransforms | scale args => rfl
  | translate args | rotate args => exact still_transform _ _ _
  | draw shape args => exact still_draw _ _ _ _

theorem still_enter (c : Command) (g : Generation) :
    (c.enter patterns index g).still = c.enter patterns index g.still := by
  cases c with
  | act line a => exact still_act line a g
  | loop | choice => rfl

theorem signal_transform (line : Nat) (t : Affine) (g : Generation) :
    (g.transform line t).signal = g.signal := by
  rw [transform]
  split <;> rfl

theorem signal_act (line : Nat) (a : Action) (g : Generation) :
    (g.act patterns line index a).signal = g.signal := by
  cases a with
  | declare name init => cases init <;> rfl
  | assign name value =>
    rw [act]
    dsimp only
    split <;> rfl
  | color args | fill args | resetTransforms | scale args => rfl
  | translate args | rotate args => exact signal_transform _ _ _
  | draw shape args =>
    rw [act, draw]
    dsimp only
    split
    · split <;> rfl
    · rfl

end Still

section Replay

theorem still_iterate {body : Int32 → Generation → Generation}
    {visits : Int32 → Generation → List Visit}
    (hbody : ∀ i g, (body i g).still = (visits i g).foldl (Visit.apply patterns) g.still)
    (i left : Nat) (g : Generation) : (iterate host body i left g).still =
      (visitsOfLoop host body visits i left g).foldl (Visit.apply patterns) g.still := by
  induction left generalizing i g with
  | zero => rfl
  | succ left ih =>
    rw [iterate, visitsOfLoop]
    dsimp only
    split
    · rfl
    · rw [ih, still_yieldIf, hbody, still_poll, List.foldl_append]

mutual

theorem still_execute (blocks : List Command) (index : Option Int32) (c : Command)
    (g : Generation) : (execute host patterns index c g).still =
      (visits host patterns blocks index c g).foldl (Visit.apply patterns) g.still := by
  cases c with
  | act line a =>
    rw [execute, visits]
    exact still_act line a g
  | loop line count body =>
    rw [execute, visits, List.foldl_cons, Visit.apply, ← still_enter, Command.enter,
      Command.faults]
    dsimp only
    split
    · rw [fault_fault]
      rfl
    · rw [still_iterate fun i g => still_executeAll _ _ body g, List.append_nil]
      rfl
  | choice line condition yes no =>
    rw [execute, visits, List.foldl_cons, Visit.apply, ← still_enter, Command.enter,
      Command.faults]
    dsimp only
    split
    · exact still_executeAll _ _ yes _
    · exact still_executeAll _ _ no _

theorem still_executeAll (blocks : List Command) (index : Option Int32) (cs : List Command)
    (g : Generation) : (executeAll host patterns index cs g).still =
      (visitsAll host patterns blocks index cs g).foldl (Visit.apply patterns) g.still := by
  cases cs with
  | nil => rw [executeAll, visitsAll, List.foldl_nil]
  | cons c rest =>
    rw [executeAll, visitsAll]
    split
    · rfl
    · rw [still_executeAll blocks index rest, still_execute blocks index c, still_poll,
        List.foldl_append]

end

theorem still_runFrom (done : Nat) (cs : List Command) (g : Generation) :
    (runFrom host patterns done cs g).still =
      (visitsFrom host patterns done cs g).foldl (Visit.apply patterns) g.still := by
  induction cs generalizing done g with
  | nil => rfl
  | cons c rest ih =>
    rw [runFrom, visitsFrom]
    dsimp only
    split
    · rfl
    · rw [ih, still_yieldIf, still_execute [] none c, still_poll, List.foldl_append]

end Replay

section Raised

theorem raised_poll (h : g.signal.raised = true) : (g.poll host).signal.raised = true := by
  simp [poll, Signal.poll, h]

theorem raised_yieldIf (p : Prop) [Decidable p] (h : g.signal.raised = true) :
    (if p then g.yield host else g).signal.raised = true := by
  split
  · simp [yield, Signal.yield, h]
  · exact h

theorem stopped_iterate {body : Int32 → Generation → Generation}
    {visits : Int32 → Generation → List Visit} (i left : Nat) (h : g.signal.raised = true) :
    visitsOfLoop host body visits i left g = [] ∧
      (iterate host body i left g).signal.raised = true := by
  cases left with
  | zero => exact ⟨rfl, h⟩
  | succ left =>
    rw [visitsOfLoop, iterate]
    dsimp only
    rw [if_pos (raised_poll h), if_pos (raised_poll h)]
    exact ⟨rfl, raised_poll h⟩

theorem stopped_executeAll (blocks : List Command) (cs : List Command)
    (h : g.signal.raised = true) : visitsAll host patterns blocks index cs g = [] ∧
      (executeAll host patterns index cs g).signal.raised = true := by
  cases cs with
  | nil =>
    rw [visitsAll, executeAll]
    exact ⟨rfl, h⟩
  | cons c rest =>
    rw [visitsAll, executeAll, if_pos (raised_poll h), if_pos (raised_poll h)]
    exact ⟨rfl, raised_poll h⟩

theorem stopped_runFrom (done : Nat) (cs : List Command) (h : g.signal.raised = true) :
    visitsFrom host patterns done cs g = [] ∧
      (runFrom host patterns done cs g).signal.raised = true := by
  cases cs with
  | nil => exact ⟨rfl, h⟩
  | cons c rest =>
    rw [visitsFrom, runFrom]
    dsimp only
    rw [if_pos (raised_poll h), if_pos (raised_poll h)]
    exact ⟨rfl, raised_poll h⟩

theorem raised_poll_quiet (g : Generation) :
    (g.poll .quiet).signal.raised = g.signal.raised := by
  simp [poll, Signal.poll, Host.quiet]

theorem raised_yieldIf_quiet (p : Prop) [Decidable p] (g : Generation) :
    (if p then g.yield .quiet else g).signal.raised = g.signal.raised := by
  split <;> simp [yield, Signal.yield, Host.quiet]

theorem raised_iterate_quiet {body : Int32 → Generation → Generation}
    (hbody : ∀ i g, (body i g).signal.raised = g.signal.raised) (i left : Nat) (g : Generation) :
    (iterate .quiet body i left g).signal.raised = g.signal.raised := by
  induction left generalizing i g with
  | zero => rfl
  | succ left ih =>
    rw [iterate]
    dsimp only
    split
    · exact raised_poll_quiet g
    · rw [ih, raised_yieldIf_quiet, hbody, raised_poll_quiet]

mutual

theorem raised_execute_quiet (index : Option Int32) (c : Command) (g : Generation) :
    (execute .quiet patterns index c g).signal.raised = g.signal.raised := by
  cases c with
  | act line a => rw [execute, signal_act]
  | loop line count body =>
    rw [execute]
    split
    · rfl
    · rw [raised_iterate_quiet fun i => raised_executeAll_quiet (some i) body]
      rfl
  | choice line condition yes no =>
    rw [execute]
    split
    · exact raised_executeAll_quiet index yes _
    · exact raised_executeAll_quiet index no _

theorem raised_executeAll_quiet (index : Option Int32) (cs : List Command) (g : Generation) :
    (executeAll .quiet patterns index cs g).signal.raised = g.signal.raised := by
  cases cs with
  | nil => rw [executeAll]
  | cons c rest =>
    rw [executeAll]
    split
    · exact raised_poll_quiet g
    · rw [raised_executeAll_quiet index rest, raised_execute_quiet index c, raised_poll_quiet]

end

theorem raised_runFrom_quiet (done : Nat) (cs : List Command) (g : Generation) :
    (runFrom .quiet patterns done cs g).signal.raised = g.signal.raised := by
  induction cs generalizing done g with
  | nil => rfl
  | cons c rest ih =>
    rw [runFrom]
    dsimp only
    split
    · exact raised_poll_quiet g
    · rw [ih, raised_yieldIf_quiet, raised_execute_quiet, raised_poll_quiet]

theorem raised_run_quiet (script : Script) (g : Generation) :
    (g.run .quiet script).signal.raised = g.signal.raised := by
  rw [run, raised_poll_quiet, raised_runFrom_quiet]

end Raised

end Generation

def Visit.still (v : Visit) : Visit := { v with before := v.before.still }

/-- How the visits and the last state of a run that may be interrupted stand to those of one
that is not. -/
structure CutShort (visits whole : List Visit) (g g' : Generation) : Prop where
  down : ∀ v ∈ visits, v.before.signal.raised = false
  visited : visits.map Visit.still <+: whole.map Visit.still
  finished : g.signal.raised = false →
    visits.map Visit.still = whole.map Visit.still ∧ g.still = g'.still

namespace CutShort

variable {vs whole ws whole' : List Visit} {k k' : Generation}

theorem stopped (h : g.signal.raised = true) : CutShort [] whole g g' where
  down := nofun
  visited := List.nil_prefix
  finished hdown := by simp [h] at hdown

theorem nil (h : g.still = g'.still) : CutShort [] [] g g' where
  down := nofun
  visited := List.nil_prefix
  finished _ := ⟨rfl, h⟩

theorem append (h : CutShort vs whole g g')
    (hstop : g.signal.raised = true → ws = [] ∧ k.signal.raised = true)
    (hgo : g.still = g'.still → CutShort ws whole' k k') :
    CutShort (vs ++ ws) (whole ++ whole') k k' := by
  cases hraised : g.signal.raised with
  | true =>
    obtain ⟨rfl, hk⟩ := hstop hraised
    rw [List.append_nil]
    refine ⟨h.down, ?_, fun hdown => by simp [hk] at hdown⟩
    rw [List.map_append]
    exact h.visited.trans (List.prefix_append _ _)
  | false =>
    obtain ⟨hvisits, hstill⟩ := h.finished hraised
    have hrest := hgo hstill
    refine ⟨?_, ?_, ?_⟩
    · intro v hv
      exact (List.mem_append.1 hv).elim (h.down v) (hrest.down v)
    · rw [List.map_append, List.map_append, hvisits, List.prefix_append_right_inj]
      exact hrest.visited
    · intro hk
      obtain ⟨hws, hkstill⟩ := hrest.finished hk
      rw [List.map_append, List.map_append, hvisits, hws]
      exact ⟨rfl, hkstill⟩

theorem cons {v v' : Visit} (hdown : v.before.signal.raised = false)
    (hv : v.still = v'.still) (h : CutShort vs whole g g') :
    CutShort (v :: vs) (v' :: whole) g g' where
  down w hw := by
    rcases List.mem_cons.1 hw with rfl | hw
    · exact hdown
    · exact h.down w hw
  visited := by
    rw [List.map_cons, List.map_cons, hv, List.prefix_cons_inj]
    exact h.visited
  finished hdown := by
    obtain ⟨hvisits, hstill⟩ := h.finished hdown
    rw [List.map_cons, List.map_cons, hv, hvisits]
    exact ⟨rfl, hstill⟩

end CutShort

namespace Generation

section Simulation

theorem cutShort_iterate {body body' : Int32 → Generation → Generation}
    {visits visits' : Int32 → Generation → List Visit}
    (hbody : ∀ i g g', g.still = g'.still → g'.signal.raised = false →
      CutShort (visits i g) (visits' i g') (body i g) (body' i g'))
    (hquiet : ∀ i g, (body' i g).signal.raised = g.signal.raised) (i left : Nat)
    (h : g.still = g'.still) (hdown : g'.signal.raised = false) :
    CutShort (visitsOfLoop host body visits i left g) (visitsOfLoop .quiet body' visits' i left g')
      (iterate host body i left g) (iterate .quiet body' i left g') := by
  induction left generalizing i g g' with
  | zero => exact .nil h
  | succ left ih =>
    have hpoll : (g'.poll .quiet).signal.raised = false := by rw [raised_poll_quiet, hdown]
    cases hraised : (g.poll host).signal.raised with
    | true =>
      rw [visitsOfLoop, iterate]
      dsimp only
      rw [if_pos hraised, if_pos hraised]
      exact .stopped hraised
    | false =>
      rw [visitsOfLoop, visitsOfLoop, iterate, iterate]
      dsimp only
      rw [hraised, hpoll]
      simp only [Bool.false_eq_true, if_false]
      refine (hbody _ (g.poll host) (g'.poll .quiet) h hpoll).append ?_ ?_
      · intro hraised
        exact stopped_iterate (i + 1) left (raised_yieldIf _ hraised)
      · intro hstill
        refine ih (i + 1) ?_ ?_
        · rw [still_yieldIf, still_yieldIf, hstill]
        · rw [raised_yieldIf_quiet, hquiet, hpoll]

mutual

theorem cutShort_execute (blocks : List Command) (index : Option Int32) (c : Command)
    (g g' : Generation) (h : g.still = g'.still) (hg : g.signal.raised = false)
    (hdown : g'.signal.raised = false) :
    CutShort (visits host patterns blocks index c g) (visits .quiet patterns blocks index c g')
      (execute host patterns index c g) (execute .quiet patterns index c g') := by
  have hvisit : (Visit.mk blocks c index g).still = (Visit.mk blocks c index g').still :=
    congrArg (Visit.mk blocks c index) h
  cases c with
  | act line a =>
    rw [visits, visits, execute, execute]
    refine .cons hg hvisit (.nil ?_)
    rw [still_act, still_act, h]
  | loop line count body =>
    rw [visits, visits, execute, execute, vars_eq_of_still h]
    refine .cons hg hvisit ?_
    dsimp only
    split
    · refine .nil ?_
      rw [still_fault, still_fault, still_fault, still_fault, h]
    · refine cutShort_iterate ?_ (fun i => raised_executeAll_quiet (some i) body) 0 _ ?_ hdown
      · intro i g g' h hdown
        exact cutShort_executeAll _ (some i) body g g' h hdown
      · rw [still_fault, still_fault, h]
  | choice line condition yes no =>
    rw [visits, visits, execute, execute, vars_eq_of_still h]
    refine .cons hg hvisit ?_
    have hfault : (g.fault line (Evaluation.condition g'.vars index condition).faults).still =
        (g'.fault line (Evaluation.condition g'.vars index condition).faults).still := by
      rw [still_fault, still_fault, h]
    dsimp only
    split
    · exact cutShort_executeAll _ index yes _ _ hfault hdown
    · exact cutShort_executeAll _ index no _ _ hfault hdown

theorem cutShort_executeAll (blocks : List Command) (index : Option Int32) (cs : List Command)
    (g g' : Generation) (h : g.still = g'.still) (hdown : g'.signal.raised = false) :
    CutShort (visitsAll host patterns blocks index cs g)
      (visitsAll .quiet patterns blocks index cs g') (executeAll host patterns index cs g)
      (executeAll .quiet patterns index cs g') := by
  cases cs with
  | nil =>
    rw [visitsAll, visitsAll, executeAll, executeAll]
    exact .nil h
  | cons c rest =>
    have hpoll : (g'.poll .quiet).signal.raised = false := by rw [raised_poll_quiet, hdown]
    cases hraised : (g.poll host).signal.raised with
    | true =>
      rw [visitsAll, executeAll, if_pos hraised, if_pos hraised]
      exact .stopped hraised
    | false =>
      rw [visitsAll, visitsAll, executeAll, executeAll, hraised, hpoll]
      simp only [Bool.false_eq_true, if_false]
      refine (cutShort_execute blocks index c (g.poll host) (g'.poll .quiet) h hraised
        hpoll).append ?_ ?_
      · exact stopped_executeAll blocks rest
      · intro hstill
        refine cutShort_executeAll blocks index rest _ _ hstill ?_
        rw [raised_execute_quiet, hpoll]

end

theorem cutShort_runFrom (done : Nat) (cs : List Command) (h : g.still = g'.still)
    (hdown : g'.signal.raised = false) :
    CutShort (visitsFrom host patterns done cs g) (visitsFrom .quiet patterns done cs g')
      (runFrom host patterns done cs g) (runFrom .quiet patterns done cs g') := by
  induction cs generalizing done g g' with
  | nil => exact .nil h
  | cons c rest ih =>
    have hpoll : (g'.poll .quiet).signal.raised = false := by rw [raised_poll_quiet, hdown]
    cases hraised : (g.poll host).signal.raised with
    | true =>
      rw [visitsFrom, runFrom]
      dsimp only
      rw [if_pos hraised, if_pos hraised]
      exact .stopped hraised
    | false =>
      rw [visitsFrom, visitsFrom, runFrom, runFrom]
      dsimp only
      rw [hraised, hpoll]
      simp only [Bool.false_eq_true, if_false]
      refine (cutShort_execute [] none c (g.poll host) (g'.poll .quiet) h hraised
        hpoll).append ?_ ?_
      · intro hraised
        exact stopped_runFrom (done + 1) rest (raised_yieldIf _ hraised)
      · intro hstill
        refine ih (done + 1) ?_ ?_
        · rw [still_yieldIf, still_yieldIf, hstill]
        · rw [raised_yieldIf_quiet, raised_execute_quiet, hpoll]

end Simulation

section Growth

theorem items_transform (line : Nat) (t : Affine) (g : Generation) :
    (g.transform line t).items = g.items := by
  rw [transform]
  split <;> rfl

theorem items_prefix_draw (line : Nat) (shape : Shape) (args : Arguments) (g : Generation) :
    g.items.toList <+: (g.draw patterns line index shape args).items.toList := by
  rw [draw]
  dsimp only
  split
  · split
    · rw [Array.toList_push]
      exact List.prefix_append _ _
    · exact List.prefix_refl _
  · rw [Array.toList_push]
    exact List.prefix_append _ _

theorem items_prefix_act (line : Nat) (a : Action) (g : Generation) :
    g.items.toList <+: (g.act patterns line index a).items.toList := by
  cases a with
  | declare name init => cases init <;> exact List.prefix_refl _
  | assign name value =>
    rw [act]
    dsimp only
    split <;> exact List.prefix_refl _
  | color args | fill args | resetTransforms | scale args => exact List.prefix_refl _
  | translate args | rotate args =>
    rw [act, items_transform]
    exact List.prefix_refl _
  | draw shape args => exact items_prefix_draw line shape args g

theorem items_prefix_apply (g : Generation) (v : Visit) :
    g.items.toList <+: (v.apply patterns g).items.toList := by
  obtain ⟨blocks, c, index, before⟩ := v
  cases c with
  | act line a => exact items_prefix_act line a g
  | loop | choice => exact List.prefix_refl _

theorem errors_prefix_apply (g : Generation) (v : Visit) :
    g.errors <+: (v.apply patterns g).errors := by
  obtain ⟨blocks, c, index, before⟩ := v
  cases c with
  | act line a =>
    rw [Visit.apply, Command.enter, errors_act]
    exact List.prefix_append _ _
  | loop | choice =>
    rw [Visit.apply, Command.enter, errors_fault]
    exact List.prefix_append _ _

theorem prefix_foldl_apply {vs whole : List Visit}
    (h : vs.map Visit.still <+: whole.map Visit.still) (g : Generation) :
    (vs.foldl (Visit.apply patterns) g).items.toList <+:
        (whole.foldl (Visit.apply patterns) g).items.toList ∧
      (vs.foldl (Visit.apply patterns) g).errors <+:
        (whole.foldl (Visit.apply patterns) g).errors := by
  induction vs generalizing whole g with
  | nil =>
    clear h
    induction whole generalizing g with
    | nil => exact ⟨List.prefix_refl _, List.prefix_refl _⟩
    | cons v whole ih =>
      obtain ⟨hitems, herrors⟩ := ih (v.apply patterns g)
      exact ⟨(items_prefix_apply g v).trans hitems, (errors_prefix_apply g v).trans herrors⟩
  | cons v vs ih =>
    cases whole with
    | nil => simp at h
    | cons w whole =>
      rw [List.map_cons, List.map_cons, List.cons_prefix_cons] at h
      obtain ⟨hvw, h⟩ := h
      have happly : v.apply patterns g = w.apply patterns g :=
        show v.still.apply patterns g = w.still.apply patterns g from congrArg _ hvw
      rw [List.foldl_cons, List.foldl_cons, happly]
      exact ih h _

end Growth

end Generation

namespace Session

def undisturbed (s : Session) : Session := { s with hook := none, interrupted := false }

theorem still_generate (s : Session) (atPoll : Nat → Bool) :
    (s.generate atPoll).last.still =
      (s.visits atPoll).foldl (Visit.apply s.script.patterns) s.start.still :=
  Generation.still_runFrom 0 s.script.commands s.start

theorem items_eq_still (s : Session) : s.items = s.last.still.items.toList := rfl

theorem errors_eq_still (s : Session) : s.errors = s.last.still.errors := rfl

theorem cutShort_generate (s : Session) (atPoll : Nat → Bool) :
    CutShort (s.visits atPoll) (s.undisturbed.visits fun _ => false)
      (Generation.runFrom (s.hostOf atPoll) s.script.patterns 0 s.script.commands s.start)
      (Generation.runFrom .quiet s.script.patterns 0 s.script.commands s.undisturbed.start) :=
  Generation.cutShort_runFrom 0 s.script.commands rfl rfl

theorem down_of_complete {s : Session} {atPoll : Nat → Bool}
    (h : (s.generate atPoll).progress = .complete) :
    (Generation.runFrom (s.hostOf atPoll) s.script.patterns 0 s.script.commands
      s.start).signal.raised = false := by
  cases hraised : (Generation.runFrom (s.hostOf atPoll) s.script.patterns 0 s.script.commands
      s.start).signal.raised with
  | false => rfl
  | true =>
    simp [generate, Generation.run, Generation.completed, Generation.raised_poll hraised] at h

/-- However a generation is interrupted, by the hook in a yield or otherwise, its items and
errors are the first ones of the generation that nobody interrupts, and all of them when it
reports to be complete. The commands that it executes are those of its visits, and no visit
starts once the signal is raised. -/
theorem generate_is_prefix (s : Session) (atPoll : Nat → Bool) :
    ((s.generate atPoll).items <+: s.undisturbed.generate.items ∧
        (s.generate atPoll).errors <+: s.undisturbed.generate.errors) ∧
      ((s.generate atPoll).last.still =
          (s.visits atPoll).foldl (Visit.apply s.script.patterns) s.start.still ∧
        ∀ v ∈ s.visits atPoll, v.before.signal.raised = false) ∧
      ((s.generate atPoll).progress = .complete →
        (s.generate atPoll).items = s.undisturbed.generate.items ∧
          (s.generate atPoll).errors = s.undisturbed.generate.errors) := by
  have hcut := s.cutShort_generate atPoll
  have hstill := s.still_generate atPoll
  have hwhole := s.undisturbed.still_generate fun _ => false
  refine ⟨?_, ⟨hstill, hcut.down⟩, ?_⟩
  · simp only [items_eq_still, errors_eq_still, hstill, hwhole]
    exact Generation.prefix_foldl_apply hcut.visited s.start.still
  · intro hcomplete
    obtain ⟨-, hsame⟩ := hcut.finished (down_of_complete hcomplete)
    have hlast : (s.generate atPoll).last.still = s.undisturbed.generate.last.still := hsame
    simp only [items_eq_still, errors_eq_still, hlast, and_self]

end Session

end PatternScript
