import Mathlib.Data.List.Sort
import PatternScript.Proofs.Running.StaticChecks

/-!
# Sessions that are used again

A session can be used by any calls in any order. Whatever they were, its next generation is that
of a new session with the script set last, the same surface, the same values from the host and
the same interruption flag. What an earlier generation leaves behind is the display list, what
it had to say, the pen and the variables; all of it is set anew at the start, the host's values
too, for a run adds no others to them.
-/
namespace PatternScript

namespace NameMap

variable {α : Type} {m m' : NameMap α}

theorem mem_entries_iff {m : NameMap α} {e : String × α} :
    e ∈ m.entries ↔ m.get? e.1 = some e.2 := by
  obtain ⟨es, hsorted⟩ := m
  obtain ⟨name, value⟩ := e
  change (name, value) ∈ es ↔ es.lookup name = some value
  induction es with
  | nil => simp
  | cons e es ih =>
    obtain ⟨hfirst, hrest⟩ := List.pairwise_cons.1 hsorted
    obtain ⟨first, value'⟩ := e
    rw [List.mem_cons, ih hrest, List.lookup_cons]
    by_cases hname : name = first
    · subst hname
      have hnone : es.lookup name = none := by
        rw [List.lookup_eq_none_iff]
        intro e he
        simpa using String.ne_of_lt (hfirst e he)
      simp [hnone, eq_comm]
    · simp [hname, beq_eq_false_iff_ne.2 hname]

theorem ext_of_get? (h : ∀ name, m.get? name = m'.get? name) : m = m' := by
  have : Std.Antisymm fun a b : String × α => a.1 < b.1 :=
    ⟨fun a b hab hba => absurd (String.lt_trans hab hba) (String.lt_irrefl _)⟩
  have : Std.Irrefl fun a b : String × α => a.1 < b.1 := ⟨fun a => String.lt_irrefl _⟩
  refine eq_of_entries (m.sorted.eq_of_mem_iff m'.sorted ?_)
  intro e
  rw [mem_entries_iff, mem_entries_iff, h]

end NameMap

structure Host.Alike (host host' : Host) : Prop where
  poll : ∀ n, host.atPoll n = host'.atPoll n
  yield : ∀ n, 0 < n → host.atYield n = host'.atYield n

namespace Generation

variable {host host' : Host} {patterns : PatternTable} {g : Generation}

section Alike

variable (alike : Host.Alike host host')
include alike

theorem poll_alike (g : Generation) : g.poll host = g.poll host' := by
  rw [poll, poll, Signal.poll, Signal.poll, alike.poll]

theorem yield_alike (g : Generation) : g.yield host = g.yield host' := by
  rw [yield, yield, Signal.yield, Signal.yield, alike.yield _ (Nat.succ_pos _)]

theorem iterate_alike (body : Int32 → Generation → Generation) (i left : Nat) (g : Generation) :
    iterate host body i left g = iterate host' body i left g := by
  induction left generalizing i g with
  | zero => rfl
  | succ left ih => simp only [iterate, poll_alike alike, yield_alike alike, ih]

mutual

theorem execute_alike (index : Option Int32) (c : Command) (g : Generation) :
    execute host patterns index c g = execute host' patterns index c g := by
  cases c with
  | act line a => rw [execute, execute]
  | loop line count body =>
    have hbody : (fun i => executeAll host patterns (some i) body) =
        fun i => executeAll host' patterns (some i) body :=
      funext fun i => funext fun g => executeAll_alike (some i) body g
    rw [execute, execute, hbody]
    simp only [iterate_alike alike]
  | choice line condition yes no =>
    rw [execute, execute]
    simp only [executeAll_alike index yes, executeAll_alike index no]

theorem executeAll_alike (index : Option Int32) (cs : List Command) (g : Generation) :
    executeAll host patterns index cs g = executeAll host' patterns index cs g := by
  cases cs with
  | nil => rw [executeAll, executeAll]
  | cons c rest =>
    rw [executeAll, executeAll, poll_alike alike]
    simp only [execute_alike index c, executeAll_alike index rest]

end

theorem runFrom_alike (done : Nat) (cs : List Command) (g : Generation) :
    runFrom host patterns done cs g = runFrom host' patterns done cs g := by
  induction cs generalizing done g with
  | nil => rfl
  | cons c rest ih =>
    simp only [runFrom, poll_alike alike, yield_alike alike, execute_alike alike, ih]

theorem run_alike (script : Script) (g : Generation) : g.run host script = g.run host' script := by
  rw [run, run, runFrom_alike alike, poll_alike alike]

end Alike

theorem stable_environment (patterns : PatternTable) (environment : NameMap Int32) :
    Stable patterns fun g => g.vars.environment = environment where
  poll _ _ h := h
  yield _ _ h := h
  fault _ _ _ h := h
  act line index a g h := by
    rcases vars_act patterns line index a g with hvars | ⟨name, value, hvars⟩ <;>
      rw [hvars] <;> exact h

theorem environment_run (host : Host) (script : Script) (g : Generation) :
    (g.run host script).vars.environment = g.vars.environment :=
  (stable_environment script.patterns g.vars.environment).runFrom 0 script.commands rfl

end Generation

namespace Session

/-- What can be done with a session. A flag that is up already takes the place of the session's
by a replacement and a request. -/
inductive Call
  | generate (atPoll : Nat → Bool)
  | takeItems
  | setScript (script : Script)
  | setHost (host : HostState)
  | setCounter (counter : Int32)
  | setTime (hour minute second : Int32)
  | requestInterrupt
  | clearInterrupt
  | replaceInterrupt
  | setHook (interruptAt : Nat)
  | items
  | errors
  | variableValue (name : String)

namespace Call

def apply (s : Session) : Call → Session
  | generate atPoll => s.generate atPoll
  | takeItems => s.takeItems.2
  | setScript script => s.setScript script
  | setHost host => s.setHost host
  | setCounter counter => s.setCounter counter
  | setTime hour minute second => s.setTime hour minute second
  | requestInterrupt => s.requestInterrupt
  | clearInterrupt => s.clearInterrupt
  | replaceInterrupt => s.replaceInterrupt
  | setHook interruptAt => s.setHook interruptAt
  | items | errors | variableValue _ => s

def script? : Call → Option Script
  | setScript script => some script
  | _ => none

def lastScript (script : Script) (calls : List Call) : Script :=
  (calls.filterMap script?).getLast?.getD script

theorem lastScript_cons (script : Script) (call : Call) (calls : List Call) :
    lastScript script (call :: calls) = lastScript (call.script?.getD script) calls := by
  rw [lastScript, lastScript, List.filterMap_cons]
  cases call.script? with
  | none => rfl
  | some next => simp [List.getLast?_cons]

end Call

variable {s : Session} {script : Script} {width height : Int32}

def after (s : Session) (calls : List Call) : Session := calls.foldl Call.apply s

theorem environment_environment (s s' : Session) :
    s.environment (s'.environment {}) = s.environment {} := by
  have hmap : (s.environment (s'.environment {})).environment = (s.environment {}).environment :=
    NameMap.ext_of_get? fun name => by
      simp only [environment, Store.setEnvironment, NameMap.get?_set, NameMap.get?_empty]
      grind
  exact congrArg (fun m => Store.mk m .empty) hmap

/-- What stays true of a session while it is used: the script is the one set last, the surface
is the same, and of the variables nothing is left once the host's values are set anew. -/
structure Reused (script : Script) (width height : Int32) (s : Session) : Prop where
  script : s.script = script
  width : s.width = width
  height : s.height = height
  vars : ∀ s' : Session, s'.environment s.last.vars.clearUser = s'.environment {}

theorem vars_generate (h : s.environment s.last.vars.clearUser = s.environment {})
    (atPoll : Nat → Bool) :
    (s.generate atPoll).last.vars.clearUser = s.environment {} := by
  have henvironment := Generation.environment_run (s.hostOf atPoll) s.script s.start
  rw [← h]
  exact congrArg (fun m => Store.mk m .empty) henvironment

theorem reused_apply (h : Reused script width height s) (call : Call) :
    Reused (call.script?.getD script) width height (call.apply s) := by
  cases call with
  | generate atPoll =>
    refine ⟨h.script, h.width, h.height, ?_⟩
    intro s'
    rw [Call.apply, vars_generate (h.vars s), environment_environment]
  | setScript next => exact ⟨rfl, h.width, h.height, h.vars⟩
  | _ => exact ⟨h.script, h.width, h.height, h.vars⟩

theorem reused_after (h : Reused script width height s) (calls : List Call) :
    Reused (Call.lastScript script calls) width height (s.after calls) := by
  induction calls generalizing s script with
  | nil => exact h
  | cons call calls ih =>
    rw [Call.lastScript_cons]
    exact ih (reused_apply h call)

/-- Whether the hook interrupts in no yield; the first yield is number one. -/
def QuietHook (s : Session) : Prop :=
  ∀ hook ∈ s.hook, hook.connected = true → hook.interruptAt = 0

theorem QuietHook.alike (h : s.QuietHook) (atPoll : Nat → Bool) :
    Host.Alike (s.hostOf atPoll) { atPoll } where
  poll _ := rfl
  yield n hn := by
    cases hhook : s.hook with
    | none => simp [hostOf, hhook]
    | some hook =>
      have hquiet := h hook hhook
      simp only [hostOf, hhook, Option.any_some]
      grind

def renewed (s : Session) (script : Script) (width height : Int32) : Session :=
  { script, width, height, host := s.host, interrupted := s.interrupted }

theorem generate_eq_of_reused (h : Reused script width height s) (hhook : s.QuietHook)
    (atPoll : Nat → Bool) : s.generate atPoll =
      { (s.renewed script width height).generate atPoll with hook := s.hook } := by
  obtain ⟨rfl, rfl, rfl, hvars⟩ := h
  have hstart : s.start = (s.renewed s.script s.width s.height).start := by
    rw [start, hvars]
    rfl
  have hrun := Generation.run_alike (hhook.alike atPoll) s.script s.start
  rw [hstart] at hrun
  simp only [generate, hstart, hrun]
  rfl

/-- Whatever was called before, a generation returns and leaves what it would on a new session
with the script set last, the same surface, host values and interruption flag, provided that
the hook installed last does not interrupt. Both may be interrupted before the same polls. -/
theorem generate_has_no_memory (script : Script) (width height : Int32) (calls : List Call)
    (atPoll : Nat → Bool) (hhook : (after { script, width, height } calls).QuietHook) :
    let used := after { script, width, height } calls
    let fresh : Session :=
      { script := Call.lastScript script calls, width, height, host := used.host,
        interrupted := used.interrupted }
    (used.generate atPoll).last.completed = (fresh.generate atPoll).last.completed ∧
      (used.generate atPoll).items = (fresh.generate atPoll).items ∧
      (used.generate atPoll).errors = (fresh.generate atPoll).errors ∧
      (used.generate atPoll).last.vars.user = (fresh.generate atPoll).last.vars.user ∧
      (used.generate atPoll).last.pen = (fresh.generate atPoll).last.pen ∧
      (used.generate atPoll).progress = (fresh.generate atPoll).progress := by
  have hnew : Reused script width height { script, width, height } := ⟨rfl, rfl, rfl, fun _ => rfl⟩
  intro used fresh
  have heq : used.generate atPoll = { fresh.generate atPoll with hook := used.hook } :=
    generate_eq_of_reused (reused_after hnew calls) hhook atPoll
  rw [heq]
  exact ⟨rfl, rfl, rfl, rfl, rfl, rfl⟩

theorem generate_has_no_memory_of_interrupted :
    let first : Script := { commands :=
      [.act 1 (.declare "$A" [.int 5]), .loop 2 (.int 3) [.act 3 (.draw .pixel .empty)]] }
    let second : Script := { commands := [.act 1 (.assign "$A" [.var ⟨"$COUNTER", false⟩])] }
    let calls : List Call := [.generate fun n => n == 4, .setCounter 7, .items, .setScript second,
      .clearInterrupt, .setHook 0]
    let new : Session := { script := first, width := 8, height := 6 }
    let used := new.after calls
    let fresh : Session := { script := second, width := 8, height := 6, host := { counter := 7 } }
    (new.after (calls.take 1)).progress = .interrupted ∧ used.QuietHook ∧
      used.generate.errors = fresh.generate.errors ∧
      fresh.generate.errors = [⟨1, .assignUndeclared "$A"⟩] := by
  intro first second calls new used fresh
  have hquiet : used.QuietHook := by simp [QuietHook, used, calls, after, Call.apply, setHook]
  obtain ⟨-, -, herrors, -⟩ := generate_has_no_memory first 8 6 calls (fun _ => false) hquiet
  exact ⟨rfl, hquiet, herrors, rfl⟩

end Session

end PatternScript
