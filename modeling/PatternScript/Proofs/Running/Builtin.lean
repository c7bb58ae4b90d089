import PatternScript.Proofs.Reading.Builtin
import PatternScript.Proofs.Running.Histories
import PatternScript.Proofs.Running.SafeCommands

/-!
# What the built-in script draws

The built-in script draws its ground and then a fan of blades, two items each. How many blades
there are follows the second and the counter, whose product is one of words and so wraps around.
The script divides by that number and repeats as often, and nothing else in it can be at fault.
-/
namespace PatternScript

open Builtin Command
open Evaluation (expression)

namespace HostState

/-- How many blades the fan is to have. The remainder has the sign of the product. -/
def blades (h : HostState) : Int :=
  3 + ((h.second.toInt * h.counter.toInt).bmod 4294967296).tmod 15

def bladesWord (h : HostState) : Int32 := 3 + h.second * h.counter % 15

theorem blades_bounds (h : HostState) : -11 ≤ h.blades ∧ h.blades ≤ 17 := by
  have hlo := Int.lt_tmod_of_pos ((h.second.toInt * h.counter.toInt).bmod 4294967296)
    (by decide : (0 : Int) < 15)
  have hhi := Int.tmod_lt_of_pos ((h.second.toInt * h.counter.toInt).bmod 4294967296)
    (by decide : (0 : Int) < 15)
  rw [blades]
  omega

theorem blades_of_fits {h : HostState} (hlo : 0 ≤ h.second.toInt * h.counter.toInt)
    (hhi : h.second.toInt * h.counter.toInt < 2147483648) :
    h.blades = 3 + h.second.toInt * h.counter.toInt % 15 := by
  rw [blades, Words.bmod_of_fits (by omega) hhi, Int.tmod_eq_emod_of_nonneg hlo]

theorem toInt_bladesWord (h : HostState) : h.bladesWord.toInt = h.blades := by
  have hbounds := h.blades_bounds
  have hmod : (h.second * h.counter % 15).toInt =
      ((h.second.toInt * h.counter.toInt).bmod 4294967296).tmod 15 := by
    rw [Int32.toInt_mod, Int32.toInt_mul]
    rfl
  have hthree : (3 : Int32).toInt = 3 := rfl
  rw [blades] at hbounds ⊢
  rw [bladesWord, Words.toInt_add_of_fits, hmod, hthree] <;> omega

theorem toNat_bladesWord (h : HostState) : h.bladesWord.toNatClampNeg = h.blades.toNat :=
  congrArg Int.toNat h.toInt_bladesWord

end HostState

namespace Builtin

def fanScope : Scope where
  host := ["$WIDTH", "$HEIGHT"]
  own := ["$CENTER_X", "$CENTER_Y", "$SECONDPLUS", "$ROTATION", "$SIZE"]
  inLoop := false
  pinned := "$SECONDPLUS"

theorem safe_ground : safeAll table fanScope ground = true := by decide +kernel

theorem safe_brushing : safeAll table fanScope brushing = true := by decide +kernel

theorem safe_blade : safeAll table { fanScope with inLoop := true } blade = true := by
  decide +kernel

theorem drawnAll_blade : drawnAll table blade = 2 := by decide +kernel

section Pieces

variable {s : Session} {environment : NameMap Int32} {value : Int32} {t : Tally}

theorem steady_declarations (s : Session) : Steady fanScope (s.environment {}).environment none 0 0
    ⟨s.environment {}, 0, []⟩ (tallyAll table none declarations ⟨s.environment {}, 0, []⟩) := by
  simp only [declarations, tallyAll, Command.tally]
  refine ⟨⟨rfl, ?_, ?_, nofun, ?_⟩, rfl, rfl⟩
  · simp [fanScope, Session.environment, Store.setEnvironment, NameMap.contains]
  · simp [fanScope, Action.tally, Action.stored, Store.hasUser, Store.setUser, NameMap.contains]
  · simp [fanScope, Action.tally, Action.stored, Store.setUser, Store.get?, Session.environment,
      Store.setEnvironment]

def countingErrors (n : Int32) : List RuntimeError :=
  if n = 0 then [⟨20, .divisionByZero⟩] else []

theorem tally_counting (h : fanScope.Holds (s.environment {}).environment none value t.vars) :
    fanScope.Holds (s.environment {}).environment none s.host.bladesWord
        (tallyAll table none counting t).vars ∧
      (tallyAll table none counting t).items = t.items ∧
      (tallyAll table none counting t).errors = t.errors ++ countingErrors s.host.bladesWord := by
  have hsecond : t.vars.get? "$SECOND" = some s.host.second :=
    h.get?_host (by simp [Session.environment, Store.setEnvironment])
  have hcounter : t.vars.get? "$COUNTER" = some s.host.counter :=
    h.get?_host (by simp [Session.environment, Store.setEnvironment])
  have hfree : (s.environment {}).environment.get? "$SECONDPLUS" = none := by
    simp [Session.environment, Store.setEnvironment]
  have hcount : expression t.vars none [.int 3, .op .add, operand "$SECOND", .op .mul,
      operand "$COUNTER", .op .mod, .int 15] = ⟨s.host.bladesWord, []⟩ := by
    simp [expression, Evaluation.operand?, Evaluation.readChain, operand, Evaluation.readVariable,
      indexName, hsecond, hcounter, Evaluation.chainValue, Evaluation.foldProducts,
      Evaluation.foldSums, Evaluation.apply, Arithmetic.bindsTight, HostState.bladesWord]
  have hangle : ∀ vars : Store, vars.get? "$SECONDPLUS" = some s.host.bladesWord →
      (expression vars none [.int 360, .op .mul, .int 89, .op .div, operand "$SECONDPLUS"]).faults =
        if s.host.bladesWord = 0 then [.divisionByZero] else [] := by
    intro vars hvars
    simp [expression, Evaluation.operand?, Evaluation.readChain, operand, Evaluation.readVariable,
      indexName, hvars, Evaluation.chainValue, Evaluation.foldProducts,
      Evaluation.foldSums, Evaluation.apply, Arithmetic.bindsTight]
    split <;> rfl
  have hplus := h.own "$SECONDPLUS" (by decide)
  have hnext := h.pin hfree s.host.bladesWord
  have hrotation := hnext.own "$ROTATION" (by decide)
  simp only [counting, tallyAll, Command.tally]
  rw [Action.tally_assign hplus, hcount, Action.tally_assign hrotation]
  refine ⟨(hnext.set (by decide) _).before (c := .act 20 (.assign "$ROTATION" [])), rfl, ?_⟩
  change t.errors ++ [] ++ (expression (t.vars.setUser fanScope.pinned _) none _).faults.map _ = _
  rw [hangle _ hnext.pinned, List.append_nil, countingErrors]
  split <;> rfl

def loopErrors (n : Int32) : List RuntimeError :=
  if n < 0 then [⟨28, .negativeCount n⟩] else []

theorem tally_loop (h : fanScope.Holds environment none value t.vars) :
    ((Command.loop 28 (operand "$SECONDPLUS") blade).tally table none t).items =
        t.items + 2 * value.toNatClampNeg ∧
      ((Command.loop 28 (operand "$SECONDPLUS") blade).tally table none t).errors =
        t.errors ++ loopErrors value := by
  have hcount : Evaluation.integer t.vars none (operand "$SECONDPLUS") = ⟨value, []⟩ := by
    have hpinned : t.vars.get? "$SECONDPLUS" = some value := h.pinned
    simp [Evaluation.integer, Evaluation.operand?, operand, Evaluation.readVariable, indexName,
      hpinned]
  rw [Command.tally, hcount]
  dsimp only
  rw [Tally.fault_nil, loopErrors]
  split
  next hneg =>
    rw [Generation.toNatClampNeg_of_neg hneg]
    exact ⟨rfl, rfl⟩
  next =>
    have hpasses := steady_passes blade safe_blade 0 value.toNatClampNeg t h
    rw [drawnAll_blade] at hpasses
    exact ⟨hpasses.items_eq, hpasses.errors_eq.trans (List.append_nil _).symm⟩

theorem tally_builtin (s : Session) :
    let t := tallyAll table none Script.builtin.commands ⟨s.environment {}, 0, []⟩
    t.items = 1 + 2 * s.host.bladesWord.toNatClampNeg ∧
      t.errors = countingErrors s.host.bladesWord ++ loopErrors s.host.bladesWord := by
  have hdeclared := steady_declarations s
  have hground := steady_tallyAll fanScope ground _ hdeclared.holds safe_ground
  obtain ⟨hcounted, hcountItems, hcountErrors⟩ := tally_counting hground.holds
  have hbrushed := steady_tallyAll fanScope brushing _ hcounted safe_brushing
  obtain ⟨hitems, herrors⟩ := tally_loop hbrushed.holds
  have hone : drawnAll table ground = 1 := by decide +kernel
  have hnone : drawnAll table brushing = 0 := by decide +kernel
  simp only [Script.builtin, tallyAll_append, tallyAll]
  constructor
  · rw [hitems, hbrushed.items_eq, hcountItems, hground.items_eq, hdeclared.items_eq, hone, hnone]
  · rw [herrors, hbrushed.errors_eq, hcountErrors, hground.errors_eq, hdeclared.errors_eq]
    rfl

theorem errors_of_blades (h : HostState) :
    countingErrors h.bladesWord ++ loopErrors h.bladesWord =
      if 0 < h.blades then [] else if h.blades = 0 then [⟨20, .divisionByZero⟩]
      else [⟨28, .negativeCount (.ofInt h.blades)⟩] := by
  have hzero : h.bladesWord = 0 ↔ h.blades = 0 := by
    rw [← Int32.toInt_inj, h.toInt_bladesWord, Int32.toInt_zero]
  have hneg : h.bladesWord < 0 ↔ h.blades < 0 := by
    rw [Words.lt_iff, h.toInt_bladesWord, Int32.toInt_zero]
  rw [countingErrors, loopErrors, ← h.toInt_bladesWord, Int32.ofInt_toInt, h.toInt_bladesWord]
  simp only [hzero, hneg]
  rcases Int.lt_trichotomy h.blades 0 with hlt | heq | hgt
  · rw [if_neg (Int.ne_of_lt hlt), if_pos hlt, if_neg (Int.lt_asymm hlt), if_neg (Int.ne_of_lt hlt)]
    rfl
  · rw [if_pos heq, heq]
    rfl
  · rw [if_neg (Int.ne_of_gt hgt), if_neg (Int.lt_asymm hgt), if_pos hgt]
    rfl

end Pieces

end Builtin

namespace Session

theorem complete_of_quiet {s : Session} (hdown : s.interrupted = false) (hhook : s.QuietHook) :
    s.generate.progress = .complete := by
  have hraised : (s.start.run (s.hostOf fun _ => false) s.script).signal.raised = false := by
    rw [Generation.run_alike (hhook.alike _)]
    exact (Generation.raised_run_quiet s.script s.start).trans hdown
  rw [generate]
  simp [Generation.completed, hraised]

theorem generate_builtin {s : Session} (hscript : s.script = .builtin)
    (hvars : s.environment s.last.vars.clearUser = s.environment {}) {atPoll : Nat → Bool}
    (h : (s.generate atPoll).progress = .complete) :
    (s.generate atPoll).items.length = 1 + 2 * s.host.blades.toNat ∧
      (s.generate atPoll).errors =
        if 0 < s.host.blades then []
        else if s.host.blades = 0 then [⟨20, .divisionByZero⟩]
        else [⟨28, .negativeCount (.ofInt s.host.blades)⟩] := by
  have htally := tally_generate h
  rw [hvars, hscript] at htally
  obtain ⟨hitems, herrors⟩ := tally_builtin s
  rw [HostState.toNat_bladesWord] at hitems
  constructor
  · exact (Array.length_toList).trans ((congrArg Tally.items htally).trans hitems)
  · exact (congrArg Tally.errors htally).trans (herrors.trans (errors_of_blades s.host))

/-- Whatever a session was used for, a generation of the built-in script that is left to finish
draws the ground and two items for each blade, and one that nobody interrupts is left to finish.
There are at most seventeen blades, and with at least one of them there is no error. Otherwise
there is one: the division by their number if it is zero, and the count of the loop if it is
negative. Where the product of second and counter is not negative and fits a word, nothing wraps
around and there are at least three blades. -/
theorem builtin_draws_its_blades (first : Script) (width height : Int32) (calls : List Call)
    (atPoll : Nat → Bool) (hlast : Call.lastScript first calls = .builtin) :
    let s := after { script := first, width, height } calls
    let product := s.host.second.toInt * s.host.counter.toInt
    let n := 3 + (product.bmod (2 ^ 32)).tmod 15
    Script.compile Script.builtinSource = .ok .builtin ∧ -11 ≤ n ∧ n ≤ 17 ∧
      (0 ≤ product → product < 2 ^ 31 → n = 3 + product % 15 ∧ 3 ≤ n) ∧
      ((s.generate atPoll).progress = .complete →
        (s.generate atPoll).items.length = 1 + 2 * n.toNat ∧
          (s.generate atPoll).errors =
            if 0 < n then [] else if n = 0 then [⟨20, .divisionByZero⟩]
            else [⟨28, .negativeCount (.ofInt n)⟩]) ∧
      (s.interrupted = false → s.QuietHook → s.generate.progress = .complete) := by
  have hnew : Reused first width height { script := first, width, height } :=
    ⟨rfl, rfl, rfl, fun _ => rfl⟩
  intro s product n
  have hreused : Reused (Call.lastScript first calls) width height s := reused_after hnew calls
  refine ⟨Script.compile_builtinSource, s.host.blades_bounds.1, s.host.blades_bounds.2, ?_, ?_,
    complete_of_quiet⟩
  · intro hlo hhi
    have hn : n = 3 + product % 15 := HostState.blades_of_fits hlo hhi
    exact ⟨hn, by omega⟩
  · exact generate_builtin (hreused.script.trans hlast) (hreused.vars s)

theorem builtin_draws_its_blades_of_used :
    let first : Script := { commands := [.loop 1 (.int 3) [.act 2 (.draw .pixel .empty)]] }
    let calls : List Call := [.generate fun n => n == 4, .clearInterrupt, .setScript .builtin,
      .setTime 10 10 1, .setCounter 8]
    let s := after { script := first, width := 200, height := 200 } calls
    Call.lastScript first calls = .builtin ∧ s.generate.progress = .complete ∧
      s.generate.items.length = 23 ∧ s.generate.errors = [] := by
  intro first calls s
  have hlast : Call.lastScript first calls = .builtin := rfl
  obtain ⟨-, -, -, -, hcounts, hcomplete⟩ :=
    builtin_draws_its_blades first 200 200 calls (fun _ => false) hlast
  have hdone : s.generate.progress = .complete := hcomplete rfl nofun
  have hblades : 3 + ((s.host.second.toInt * s.host.counter.toInt).bmod (2 ^ 32)).tmod 15 = 11 := by
    decide +kernel
  have hcounted := hcounts hdone
  rw [hblades] at hcounted
  exact ⟨hlast, hdone, hcounted⟩

/-- Twice the thirtieth power of two is a negative word, which leaves a negative remainder. -/
theorem builtin_fan_may_be_refused :
    ¬ ∀ (script : Script) (width height : Int32) (host : HostState),
      Script.compile Script.builtinSource = .ok script → 0 ≤ host.counter →
      0 ≤ host.hour ∧ host.hour ≤ 23 → 0 ≤ host.minute ∧ host.minute ≤ 59 →
      0 ≤ host.second ∧ host.second ≤ 59 →
      let s : Session := { script, width, height, host }
      let n := 3 + host.second.toInt * host.counter.toInt % 15
      s.generate.progress = .complete →
        s.generate.errors = [] ∧ s.generate.items.length = 1 + 2 * n.toNat := by
  intro h
  let host : HostState := { counter := 1073741824, second := 2 }
  let s : Session := { script := .builtin, width := 1, height := 1, host }
  have hcomplete : s.generate.progress = .complete := complete_of_quiet rfl nofun
  have hclaimed := h .builtin 1 1 host Script.compile_builtinSource (by decide) (by decide)
    (by decide) (by decide) hcomplete
  obtain ⟨-, herrors⟩ := generate_builtin (s := s) rfl rfl hcomplete
  have hblades : s.host.blades = -5 := by decide +kernel
  rw [hclaimed.1, hblades] at herrors
  cases herrors

end Session

end PatternScript
