import PatternScript.Proofs.Running.Faults
import PatternScript.Run.Session

/-!
# The commands that a run gets to

A run visits commands, each in some state and within some blocks. The errors of the run are
those of its visits in turn. What polls, yields, faults and actions leave true holds before
every visit, and what a block passes on to the commands in it holds of all visits.
-/
namespace PatternScript

structure Visit where
  blocks : List Command
  command : Command
  index : Option Int32
  before : Generation

def Visit.errors (patterns : PatternTable) (v : Visit) : List RuntimeError :=
  (v.command.faults patterns v.index v.before).map (RuntimeError.mk v.command.line)

namespace Generation

variable {host : Host} {patterns : PatternTable} {index : Option Int32} {g : Generation}

def visitsOfLoop (host : Host) (body : Int32 → Generation → Generation)
    (visits : Int32 → Generation → List Visit) (i : Nat) : Nat → Generation → List Visit
  | 0, _ => []
  | left + 1, g =>
    let g := g.poll host
    if g.signal.raised then []
    else
      visits (Int32.ofNat i) g ++
        let g := body (Int32.ofNat i) g
        let g := if (i + 1) % iterationsPerYield = 0 then g.yield host else g
        visitsOfLoop host body visits (i + 1) left g

mutual

def visits (host : Host) (patterns : PatternTable) (blocks : List Command) (index : Option Int32)
    (c : Command) (g : Generation) : List Visit :=
  ⟨blocks, c, index, g⟩ ::
    match c with
    | .act _ _ => []
    | .loop line count body =>
      let n := Evaluation.integer g.vars index count
      if n.value < 0 then []
      else visitsOfLoop host (fun i => executeAll host patterns (some i) body)
        (fun i => visitsAll host patterns (.loop line count body :: blocks) (some i) body) 0
        n.value.toNatClampNeg (g.fault line n.faults)
    | .choice line condition yes no =>
      let taken := Evaluation.condition g.vars index condition
      let g := g.fault line taken.faults
      if taken.value then
        visitsAll host patterns (.choice line condition yes no :: blocks) index yes g
      else visitsAll host patterns (.choice line condition yes no :: blocks) index no g

def visitsAll (host : Host) (patterns : PatternTable) (blocks : List Command)
    (index : Option Int32) (cs : List Command) (g : Generation) : List Visit :=
  match cs with
  | [] => []
  | c :: rest =>
    let g := g.poll host
    if g.signal.raised then []
    else visits host patterns blocks index c g ++
      visitsAll host patterns blocks index rest (execute host patterns index c g)

end

def visitsFrom (host : Host) (patterns : PatternTable) (done : Nat) :
    List Command → Generation → List Visit
  | [], _ => []
  | c :: rest, g =>
    let g := g.poll host
    if g.signal.raised then []
    else
      visits host patterns [] none c g ++
        let g := execute host patterns none c g
        let g := if (done + 1) % commandsPerYield = 0 then g.yield host else g
        visitsFrom host patterns (done + 1) rest g

section Errors

theorem errors_poll (host : Host) (g : Generation) : (g.poll host).errors = g.errors := rfl

theorem errors_yieldIf (p : Prop) [Decidable p] (host : Host) (g : Generation) :
    (if p then g.yield host else g).errors = g.errors := by
  split <;> rfl

theorem errors_iterate {body : Int32 → Generation → Generation}
    {visits : Int32 → Generation → List Visit}
    (hbody : ∀ i g, (body i g).errors = g.errors ++ (visits i g).flatMap (Visit.errors patterns))
    (i left : Nat) (g : Generation) : (iterate host body i left g).errors =
      g.errors ++ (visitsOfLoop host body visits i left g).flatMap (Visit.errors patterns) := by
  induction left generalizing i g with
  | zero => exact (List.append_nil _).symm
  | succ left ih =>
    rw [iterate, visitsOfLoop]
    dsimp only
    split
    · exact (List.append_nil _).symm
    · rw [ih, errors_yieldIf, hbody, errors_poll, List.flatMap_append, List.append_assoc]

mutual

theorem errors_execute (blocks : List Command) (index : Option Int32) (c : Command)
    (g : Generation) : (execute host patterns index c g).errors =
      g.errors ++ (visits host patterns blocks index c g).flatMap (Visit.errors patterns) := by
  cases c with
  | act line a =>
    rw [execute, visits, errors_act, List.flatMap_singleton]
    rfl
  | loop line count body =>
    rw [execute, visits, List.flatMap_cons, Visit.errors, Command.faults]
    dsimp only
    split
    · rw [errors_fault, errors_fault, List.flatMap_nil, List.append_nil, List.map_append,
        List.append_assoc]
      rfl
    · rw [errors_iterate fun i g => errors_executeAll _ _ body g, errors_fault, List.append_nil,
        List.append_assoc]
      rfl
  | choice line condition yes no =>
    rw [execute, visits, List.flatMap_cons, Visit.errors, Command.faults]
    dsimp only
    split
    · rw [errors_executeAll _ _ yes, errors_fault, List.append_assoc]
      rfl
    · rw [errors_executeAll _ _ no, errors_fault, List.append_assoc]
      rfl

theorem errors_executeAll (blocks : List Command) (index : Option Int32) (cs : List Command)
    (g : Generation) : (executeAll host patterns index cs g).errors =
      g.errors ++ (visitsAll host patterns blocks index cs g).flatMap (Visit.errors patterns) := by
  cases cs with
  | nil => exact (List.append_nil _).symm
  | cons c rest =>
    rw [executeAll, visitsAll]
    split
    · exact (List.append_nil _).symm
    · rw [errors_executeAll blocks index rest, errors_execute blocks index c, errors_poll,
        List.flatMap_append, List.append_assoc]

end

theorem errors_runFrom (done : Nat) (cs : List Command) (g : Generation) :
    (runFrom host patterns done cs g).errors =
      g.errors ++ (visitsFrom host patterns done cs g).flatMap (Visit.errors patterns) := by
  induction cs generalizing done g with
  | nil => exact (List.append_nil _).symm
  | cons c rest ih =>
    rw [runFrom, visitsFrom]
    dsimp only
    split
    · exact (List.append_nil _).symm
    · rw [ih, errors_yieldIf, errors_execute [] none c, errors_poll, List.flatMap_append,
        List.append_assoc]

end Errors

/-- A property of states that nothing a run does can end. -/
structure Stable (patterns : PatternTable) (P : Generation → Prop) : Prop where
  poll : ∀ host g, P g → P (g.poll host)
  yield : ∀ host g, P g → P (g.yield host)
  fault : ∀ line causes g, P g → P (g.fault line causes)
  act : ∀ line index a g, P g → P (g.act patterns line index a)

section Stability

variable {P : Generation → Prop} (stable : Stable patterns P)
include stable

theorem Stable.yieldIf (p : Prop) [Decidable p] (h : P g) : P (if p then g.yield host else g) := by
  split
  · exact stable.yield host g h
  · exact h

theorem Stable.iterate {body : Int32 → Generation → Generation} (hbody : ∀ i g, P g → P (body i g))
    (i left : Nat) (h : P g) : P (iterate host body i left g) := by
  induction left generalizing i g with
  | zero => exact h
  | succ left ih =>
    rw [Generation.iterate]
    dsimp only
    split
    · exact stable.poll host g h
    · exact ih (i + 1) (stable.yieldIf _ (hbody _ _ (stable.poll host g h)))

mutual

theorem Stable.execute (index : Option Int32) (c : Command) (g : Generation) (h : P g) :
    P (execute host patterns index c g) := by
  cases c with
  | act line a =>
    rw [Generation.execute]
    exact stable.act line index a g h
  | loop line count body =>
    rw [Generation.execute]
    split
    · exact stable.fault _ _ _ (stable.fault _ _ _ h)
    · exact stable.iterate (fun i g => Stable.executeAll (some i) body g) 0 _
        (stable.fault _ _ _ h)
  | choice line condition yes no =>
    rw [Generation.execute]
    split
    · exact Stable.executeAll index yes _ (stable.fault _ _ _ h)
    · exact Stable.executeAll index no _ (stable.fault _ _ _ h)

theorem Stable.executeAll (index : Option Int32) (cs : List Command) (g : Generation) (h : P g) :
    P (executeAll host patterns index cs g) := by
  cases cs with
  | nil =>
    rw [Generation.executeAll]
    exact h
  | cons c rest =>
    rw [Generation.executeAll]
    split
    · exact stable.poll host g h
    · exact Stable.executeAll index rest _ (Stable.execute index c _ (stable.poll host g h))

end

theorem Stable.runFrom (done : Nat) (cs : List Command) (h : P g) :
    P (runFrom host patterns done cs g) := by
  induction cs generalizing done g with
  | nil => exact h
  | cons c rest ih =>
    rw [Generation.runFrom]
    dsimp only
    split
    · exact stable.poll host g h
    · exact ih (done + 1) (stable.yieldIf _ (stable.execute none c _ (stable.poll host g h)))

end Stability

/-- A property of visits that a block passes on to the commands in it, when these are met in
states with `P`. -/
structure Inherited (P : Generation → Prop) (R : Visit → Prop) : Prop where
  loop : ∀ blocks index before line count body i c g,
    R ⟨blocks, .loop line count body, index, before⟩ → c ∈ body → P g →
      R ⟨.loop line count body :: blocks, c, some i, g⟩
  choice : ∀ blocks index before line condition yes no c g,
    R ⟨blocks, .choice line condition yes no, index, before⟩ → c ∈ yes ++ no → P g →
      R ⟨.choice line condition yes no :: blocks, c, index, g⟩

section Inheritance

variable {P : Generation → Prop} {R : Visit → Prop} (stable : Stable patterns P)
include stable

theorem forall_visitsOfLoop {body : Int32 → Generation → Generation}
    {visits : Int32 → Generation → List Visit} (hbody : ∀ i g, P g → P (body i g))
    (hvisits : ∀ i g, P g → ∀ v ∈ visits i g, R v) (i left : Nat) (h : P g) :
    ∀ v ∈ visitsOfLoop host body visits i left g, R v := by
  induction left generalizing i g with
  | zero =>
    intro v hv
    cases hv
  | succ left ih =>
    intro v hv
    rw [visitsOfLoop] at hv
    dsimp only at hv
    split at hv
    · cases hv
    · have hpoll := stable.poll host g h
      rcases List.mem_append.1 hv with hv | hv
      · exact hvisits _ _ hpoll v hv
      · exact ih (i + 1) (stable.yieldIf _ (hbody _ _ hpoll)) v hv

mutual

theorem forall_visits (inherited : Inherited P R) (blocks : List Command) (index : Option Int32)
    (c : Command) (g : Generation) (h : P g) (hc : R ⟨blocks, c, index, g⟩) :
    ∀ v ∈ visits host patterns blocks index c g, R v := by
  intro v hv
  cases c with
  | act line a =>
    rw [visits] at hv
    cases List.mem_singleton.1 hv
    exact hc
  | loop line count body =>
    rw [visits] at hv
    rcases List.mem_cons.1 hv with rfl | hv
    · exact hc
    · dsimp only at hv
      split at hv
      · cases hv
      · refine forall_visitsOfLoop stable (fun i => stable.executeAll (some i) body) ?_ 0 _
          (stable.fault _ _ _ h) v hv
        intro i g hg
        exact forall_visitsAll inherited _ _ body g hg fun c' hc' g' hg' =>
          inherited.loop _ _ _ _ _ _ i c' g' hc hc' hg'
  | choice line condition yes no =>
    rw [visits] at hv
    rcases List.mem_cons.1 hv with rfl | hv
    · exact hc
    · dsimp only at hv
      split at hv
      · exact forall_visitsAll inherited _ index yes _ (stable.fault _ _ _ h)
          (fun c' hc' g' hg' => inherited.choice _ _ _ _ _ _ _ c' g' hc
            (List.mem_append_left no hc') hg') v hv
      · exact forall_visitsAll inherited _ index no _ (stable.fault _ _ _ h)
          (fun c' hc' g' hg' => inherited.choice _ _ _ _ _ _ _ c' g' hc
            (List.mem_append_right yes hc') hg') v hv

theorem forall_visitsAll (inherited : Inherited P R) (blocks : List Command)
    (index : Option Int32) (cs : List Command) (g : Generation) (h : P g)
    (hcs : ∀ c ∈ cs, ∀ g, P g → R ⟨blocks, c, index, g⟩) :
    ∀ v ∈ visitsAll host patterns blocks index cs g, R v := by
  intro v hv
  cases cs with
  | nil =>
    rw [visitsAll] at hv
    cases hv
  | cons c rest =>
    rw [visitsAll] at hv
    split at hv
    · cases hv
    · have hpoll := stable.poll host g h
      rcases List.mem_append.1 hv with hv | hv
      · exact forall_visits inherited blocks index c _ hpoll (hcs c List.mem_cons_self _ hpoll) v hv
      · exact forall_visitsAll inherited blocks index rest _ (stable.execute index c _ hpoll)
          (fun c' hc' => hcs c' (List.mem_cons_of_mem c hc')) v hv

end

end Inheritance

end Generation

def Session.visits (s : Session) (atPoll : Nat → Bool) : List Visit :=
  Generation.visitsFrom (s.hostOf atPoll) s.script.patterns 0 s.script.commands s.start

theorem Session.errors_generate (s : Session) (atPoll : Nat → Bool) :
    (s.generate atPoll).errors = (s.visits atPoll).flatMap (Visit.errors s.script.patterns) := by
  refine (Generation.errors_runFrom 0 s.script.commands s.start).trans ?_
  exact List.nil_append _

end PatternScript
