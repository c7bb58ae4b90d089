import Mathlib.Algebra.GroupWithZero.Nat
import PatternScript.Proofs.Running.Interruption
import PatternScript.Proofs.Words

/-!
# How often a run yields

A loop yields once for each twenty of its iterations, whatever its body does, and the script
itself once for each fifty of its commands. How often a loop is executed, and with which count,
depends on all that was executed before it, so the yields of a run that is left to finish are a
sum over its visits.
-/
namespace PatternScript

namespace Visit

def iterations (v : Visit) : Nat :=
  match v.command with
  | .loop _ count _ => (Evaluation.integer v.before.vars v.index count).value.toNatClampNeg
  | .act .. | .choice .. => 0

section Iterations

variable (blocks : List Command) (index : Option Int32) (before : Generation) (line : Nat)

@[simp] theorem iterations_act (a : Action) :
    (Visit.mk blocks (.act line a) index before).iterations = 0 := rfl

@[simp] theorem iterations_loop (count : Token) (body : List Command) :
    (Visit.mk blocks (.loop line count body) index before).iterations =
      (Evaluation.integer before.vars index count).value.toNatClampNeg := rfl

@[simp] theorem iterations_choice (condition : List Token) (yes no : List Command) :
    (Visit.mk blocks (.choice line condition yes no) index before).iterations = 0 := rfl

end Iterations

/-- The yields that the loops among some visits make, each for itself. -/
def yields (vs : List Visit) : Nat := (vs.map fun v => v.iterations / 20).sum

@[simp] theorem yields_nil : yields [] = 0 := rfl

@[simp] theorem yields_cons (v : Visit) (vs : List Visit) :
    yields (v :: vs) = v.iterations / 20 + yields vs := by
  rw [yields, yields, List.map_cons, List.sum_cons]

@[simp] theorem yields_append (vs ws : List Visit) : yields (vs ++ ws) = yields vs + yields ws := by
  rw [yields, yields, yields, List.map_append, List.sum_append]

end Visit

namespace Generation

variable {host : Host} {patterns : PatternTable} {index : Option Int32} {g g' g'' : Generation}
  {n m : Nat}

theorem down_before (hstop : g.signal.raised = true → g'.signal.raised = true)
    (hdown : g'.signal.raised = false) : g.signal.raised = false := by
  rw [← Bool.not_eq_true] at hdown ⊢
  exact mt hstop hdown

/-- What leads from `g` to `g'` yields `n` times, unless it is stopped on the way. -/
def YieldsTo (g : Generation) (n : Nat) (g' : Generation) : Prop :=
  g'.signal.raised = false → g'.signal.yields = g.signal.yields + n

namespace YieldsTo

theorem stopped (h : g'.signal.raised = true) : g.YieldsTo n g' := by
  intro hdown
  rw [h] at hdown
  cases hdown

theorem trans (h : g.YieldsTo n g') (h' : g'.YieldsTo m g'')
    (hstop : g'.signal.raised = true → g''.signal.raised = true) : g.YieldsTo (n + m) g'' := by
  intro hdown
  rw [h' hdown, h (down_before hstop hdown), Nat.add_assoc]

end YieldsTo

theorem yieldsTo_yieldIf (p : Prop) [Decidable p] (host : Host) (g : Generation) :
    g.YieldsTo (if p then 1 else 0) (if p then g.yield host else g) := by
  intro _
  split <;> rfl

theorem YieldsTo.pass {k i left : Nat} (hpass : g.YieldsTo n g')
    (hrest : YieldsTo (if (i + 1) % k = 0 then g'.yield host else g')
      (m + ((i + 1 + left) / k - (i + 1) / k)) g'')
    (hstop : (if (i + 1) % k = 0 then g'.yield host else g').signal.raised = true →
      g''.signal.raised = true) :
    g.YieldsTo (n + m + ((i + (left + 1)) / k - i / k)) g'' := by
  have hall := (hpass.trans (yieldsTo_yieldIf ((i + 1) % k = 0) host g')
    (raised_yieldIf _)).trans hrest hstop
  have hnext : (i + 1) / k = i / k + if (i + 1) % k = 0 then 1 else 0 := by
    simp only [Nat.succ_div, Nat.dvd_iff_mod_eq_zero]
  have hmono : (i + 1) / k ≤ (i + 1 + left) / k := Nat.div_le_div_right (Nat.le_add_right _ _)
  have hcount : n + m + ((i + (left + 1)) / k - i / k) =
      n + (if (i + 1) % k = 0 then 1 else 0) + (m + ((i + 1 + left) / k - (i + 1) / k)) := by
    rw [Nat.add_comm left, ← Nat.add_assoc]
    omega
  rwa [hcount]

theorem yieldsTo_iterate (host : Host) {body : Int32 → Generation → Generation}
    {visits : Int32 → Generation → List Visit}
    (hbody : ∀ i g, YieldsTo g (Visit.yields (visits i g)) (body i g)) (i left : Nat)
    (g : Generation) :
    g.YieldsTo (Visit.yields (visitsOfLoop host body visits i left g) + ((i + left) / 20 - i / 20))
      (iterate host body i left g) := by
  induction left generalizing i g with
  | zero =>
    intro _
    rw [Nat.add_zero, Nat.sub_self]
    rfl
  | succ left ih =>
    rw [iterate, visitsOfLoop]
    dsimp only
    split
    next hraised => exact .stopped hraised
    next =>
      rw [Visit.yields_append]
      refine YieldsTo.pass (hbody _ (g.poll host)) (ih (i + 1) _) fun hraised => ?_
      have hstopped : visitsOfLoop host body visits (i + 1) left _ = [] ∧ _ :=
        stopped_iterate (i + 1) left hraised
      exact hstopped.2

theorem toNatClampNeg_of_neg {n : Int32} (h : n < 0) : n.toNatClampNeg = 0 := by
  rw [Words.lt_iff] at h
  exact Int.toNat_of_nonpos (Int.le_of_lt h)

mutual

theorem yieldsTo_execute (blocks : List Command) (index : Option Int32) (c : Command)
    (g : Generation) : YieldsTo g (Visit.yields (visits host patterns blocks index c g))
      (execute host patterns index c g) := by
  cases c with
  | act line a =>
    intro _
    rw [execute, visits, signal_act, Visit.yields_cons, Visit.iterations_act, Nat.zero_div]
    rfl
  | loop line count body =>
    rw [execute, visits, Visit.yields_cons, Visit.iterations_loop]
    dsimp only
    split
    next hneg =>
      intro _
      rw [toNatClampNeg_of_neg hneg]
      rfl
    next =>
      have h := yieldsTo_iterate host
        (fun i g => yieldsTo_executeAll (.loop line count body :: blocks) (some i) body g) 0
        (Evaluation.integer g.vars index count).value.toNatClampNeg
        (g.fault line (Evaluation.integer g.vars index count).faults)
      rwa [Nat.zero_add, Nat.zero_div, Nat.sub_zero, Nat.add_comm] at h
  | choice line condition yes no =>
    rw [execute, visits, Visit.yields_cons, Visit.iterations_choice, Nat.zero_div, Nat.zero_add]
    dsimp only
    split
    · exact yieldsTo_executeAll _ index yes _
    · exact yieldsTo_executeAll _ index no _

theorem yieldsTo_executeAll (blocks : List Command) (index : Option Int32) (cs : List Command)
    (g : Generation) : YieldsTo g (Visit.yields (visitsAll host patterns blocks index cs g))
      (executeAll host patterns index cs g) := by
  cases cs with
  | nil =>
    intro _
    rw [executeAll, visitsAll]
    rfl
  | cons c rest =>
    rw [executeAll, visitsAll]
    split
    next hraised => exact .stopped hraised
    next =>
      rw [Visit.yields_append]
      exact (yieldsTo_execute blocks index c (g.poll host)).trans
        (yieldsTo_executeAll blocks index rest _) fun hraised =>
          (stopped_executeAll blocks rest hraised).2

end

theorem yieldsTo_runFrom (done : Nat) (cs : List Command) (g : Generation) :
    g.YieldsTo (Visit.yields (visitsFrom host patterns done cs g) +
      ((done + cs.length) / 50 - done / 50)) (runFrom host patterns done cs g) := by
  induction cs generalizing done g with
  | nil =>
    intro _
    rw [List.length_nil, Nat.add_zero, Nat.sub_self]
    rfl
  | cons c rest ih =>
    rw [runFrom, visitsFrom]
    dsimp only
    split
    next hraised => exact .stopped hraised
    next =>
      rw [Visit.yields_append]
      exact YieldsTo.pass (yieldsTo_execute [] none c (g.poll host)) (ih (done + 1) _)
        fun hraised => (stopped_runFrom (done + 1) rest hraised).2

theorem yieldsTo_short_loop (blocks : List Command) (index : Option Int32) {line : Nat}
    {count : Token} {body : List Command} {g : Generation}
    (hfew : (Evaluation.integer g.vars index count).value.toInt < 20) :
    g.YieldsTo (Visit.yields (visits host patterns blocks index (.loop line count body) g).tail)
      (execute host patterns index (.loop line count body) g) := by
  have hall : g.YieldsTo
      (Visit.yields (visits host patterns blocks index (.loop line count body) g))
      (execute host patterns index (.loop line count body) g) :=
    yieldsTo_execute blocks index (.loop line count body) g
  have hnone : (Evaluation.integer g.vars index count).value.toNatClampNeg / 20 = 0 :=
    Nat.div_eq_of_lt ((Int.toNat_lt' (by decide)).2 hfew)
  rw [visits, Visit.yields_cons, Visit.iterations_loop, hnone, Nat.zero_add] at hall
  rwa [visits, List.tail_cons]

end Generation

namespace Session

/-- A generation that is left to finish yields once for each fifty commands of the script itself
and, for each loop that it executes, once for each twenty iterations of that. While a loop of
fewer than twenty is executed, at whatever depth it stands, only the loops in it yield. -/
theorem yields_are_accounted (s : Session) (atPoll : Nat → Bool)
    (h : (s.generate atPoll).progress = .complete) :
    (s.generate atPoll).last.signal.yields =
        s.script.commands.length / 50 + ((s.visits atPoll).map fun v => v.iterations / 20).sum ∧
      ∀ host patterns blocks index line count body (g : Generation),
        (Evaluation.integer g.vars index count).value.toInt < 20 →
        g.YieldsTo
          (Visit.yields (g.visits host patterns blocks index (.loop line count body)).tail)
          (g.execute host patterns index (.loop line count body)) := by
  refine ⟨?_, fun host patterns blocks index line count body g hfew =>
    Generation.yieldsTo_short_loop blocks index hfew⟩
  have hall := Generation.yieldsTo_runFrom 0 s.script.commands s.start (down_of_complete h)
  rw [Nat.zero_add, Nat.zero_div, Nat.sub_zero, Nat.add_comm (Visit.yields _),
    show s.start.signal.yields = 0 from rfl, Nat.zero_add] at hall
  exact hall

theorem yields_are_accounted_of_nested :
    let inner : Command := .loop 2 (.var ⟨"$INDEX", false⟩) [.act 3 .resetTransforms]
    let script : Script :=
      { commands := .loop 1 (.int 21) [inner] :: List.replicate 49 (.act 6 .resetTransforms) }
    let s : Session := { script, width := 4, height := 4, hook := some { interruptAt := 4 } }
    s.generate.progress = .complete ∧ s.generate.last.signal.yields = 3 ∧
      ((s.visits fun _ => false).map fun v => v.iterations / 20).sum = 2 := by
  intro inner script s
  have hcomplete : s.generate.progress = .complete := by decide +kernel
  have hthree : s.generate.last.signal.yields = 3 := by decide +kernel
  have hsum := (yields_are_accounted s (fun _ => false) hcomplete).1
  rw [hthree, show s.script.commands.length / 50 = 1 from by decide] at hsum
  exact ⟨hcomplete, hthree, by omega⟩

end Session

end PatternScript
