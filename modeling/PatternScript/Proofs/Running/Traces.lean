import PatternScript.Proofs.Running.Interruption

/-!
# The state before each visit

The visits of a run form a trace: the state before each of them is, apart from the signal,
what the visits before it made of the first state. So a property that every command keeps
holds before every visit, and what a visit sees is a function of the visits before it.
-/
namespace PatternScript

variable {host : Host} {patterns : PatternTable} {index : Option Int32} {g : Generation}
  {vs ws : List Visit} {v : Visit}

/-- Whether the state before each of some visits is what those before it make of `g`. -/
def Generation.Traces (patterns : PatternTable) (g : Generation) : List Visit → Prop
  | [] => True
  | v :: rest => v.before.still = g ∧ Traces patterns (v.apply patterns g) rest

namespace Generation

theorem traces_append : Traces patterns g (vs ++ ws) ↔
    Traces patterns g vs ∧ Traces patterns (vs.foldl (Visit.apply patterns) g) ws := by
  induction vs generalizing g with
  | nil => simp [Traces]
  | cons v vs ih =>
    rw [List.cons_append, Traces, ih, Traces, and_assoc]
    rfl

theorem still_before_of_traces (h : Traces patterns g (vs ++ v :: ws)) :
    v.before.still = vs.foldl (Visit.apply patterns) g :=
  (traces_append.1 h).2.1

theorem traces_visitsOfLoop {body : Int32 → Generation → Generation}
    {visits : Int32 → Generation → List Visit}
    (hbody : ∀ i g, (body i g).still = (visits i g).foldl (Visit.apply patterns) g.still)
    (hvisits : ∀ i g, Traces patterns g.still (visits i g)) (i left : Nat) (g : Generation) :
    Traces patterns g.still (visitsOfLoop host body visits i left g) := by
  induction left generalizing i g with
  | zero => trivial
  | succ left ih =>
    rw [visitsOfLoop]
    dsimp only
    split
    · trivial
    · refine traces_append.2 ⟨hvisits _ (g.poll host), ?_⟩
      rw [← still_poll host g, ← hbody, ← still_yieldIf ((i + 1) % iterationsPerYield = 0) host]
      exact ih _ _

mutual

theorem traces_visits (blocks : List Command) (index : Option Int32) (c : Command)
    (g : Generation) : Traces patterns g.still (visits host patterns blocks index c g) := by
  cases c with
  | act line a => exact ⟨rfl, trivial⟩
  | loop line count body =>
    rw [visits, Traces, Visit.apply, ← still_enter, Command.enter, Command.faults]
    refine ⟨rfl, ?_⟩
    dsimp only
    split
    · trivial
    · rw [List.append_nil]
      exact traces_visitsOfLoop (fun i g => still_executeAll _ (some i) body g)
        (fun i g => traces_visitsAll _ (some i) body g) 0 _ _
  | choice line condition yes no =>
    rw [visits, Traces, Visit.apply, ← still_enter, Command.enter, Command.faults]
    refine ⟨rfl, ?_⟩
    dsimp only
    split
    · exact traces_visitsAll _ index yes _
    · exact traces_visitsAll _ index no _

theorem traces_visitsAll (blocks : List Command) (index : Option Int32) (cs : List Command)
    (g : Generation) : Traces patterns g.still (visitsAll host patterns blocks index cs g) := by
  cases cs with
  | nil => trivial
  | cons c rest =>
    rw [visitsAll]
    split
    · trivial
    · refine traces_append.2 ⟨traces_visits blocks index c (g.poll host), ?_⟩
      rw [← still_poll host g, ← still_execute]
      exact traces_visitsAll blocks index rest _

end

theorem traces_visitsFrom (done : Nat) (cs : List Command) (g : Generation) :
    Traces patterns g.still (visitsFrom host patterns done cs g) := by
  induction cs generalizing done g with
  | nil => trivial
  | cons c rest ih =>
    rw [visitsFrom]
    dsimp only
    split
    · trivial
    · refine traces_append.2 ⟨traces_visits [] none c (g.poll host), ?_⟩
      rw [← still_poll host g, ← still_execute,
        ← still_yieldIf ((done + 1) % commandsPerYield = 0) host]
      exact ih _ _

end Generation

theorem Session.traces_visits (s : Session) (atPoll : Nat → Bool) :
    Generation.Traces s.script.patterns s.start.still (s.visits atPoll) :=
  Generation.traces_visitsFrom 0 s.script.commands s.start

end PatternScript
