import PatternScript.Proofs.Running.PatternUses
import PatternScript.Proofs.Running.StaticChecks
import PatternScript.Proofs.Running.Yields

/-!
# What a run comes to

Which commands a run gets to, what it finds fault with and how many items it leaves depend on the
variables alone: neither the pen nor the host has a part in it, as long as the run is not
interrupted. So the variables, the number of items and the errors of a whole run are a function
of those at its start, which follows the script and forgets all else.
-/
namespace PatternScript

/-- What is left of a state without the pen, the signal and what the items look like. -/
structure Tally where
  vars : Store
  items : Nat := 0
  errors : List RuntimeError := []

namespace Tally

def fault (line : Nat) (causes : List RuntimeCause) (t : Tally) : Tally :=
  { t with errors := t.errors ++ causes.map (RuntimeError.mk line) }

@[simp] theorem fault_nil (line : Nat) (t : Tally) : t.fault line [] = t := by
  rw [fault, List.map_nil, List.append_nil]

def passes (body : Int32 → Tally → Tally) (i : Nat) : Nat → Tally → Tally
  | 0, t => t
  | left + 1, t => passes body (i + 1) left (body (Int32.ofNat i) t)

end Tally

namespace Action

def stored (index : Option Int32) (vars : Store) : Action → Store
  | declare name [] => vars.setUser name 0
  | declare name init => vars.setUser name (Evaluation.expression vars index init).value
  | assign name value =>
    if vars.hasUser name then
      vars.setUser name (Evaluation.expression vars index value).value
    else vars
  | color _ | fill _ | resetTransforms | translate _ | rotate _ | scale _ | draw .. => vars

def drawn (patterns : PatternTable) : Action → Nat
  | draw shape args =>
    if shape = .stamp ∧ patterns.find? (Generation.stampName args) = none then 0 else 1
  | declare .. | assign .. | color _ | fill _ | resetTransforms | translate _ | rotate _
  | scale _ => 0

def tally (patterns : PatternTable) (line : Nat) (index : Option Int32) (a : Action) (t : Tally) :
    Tally where
  vars := a.stored index t.vars
  items := t.items + a.drawn patterns
  errors := t.errors ++ (a.faults patterns index { vars := t.vars }).map (RuntimeError.mk line)

theorem tally_assign {patterns : PatternTable} {line : Nat} {index : Option Int32} {name : String}
    {value : List Token} {t : Tally} (huser : t.vars.hasUser name = true) :
    (assign name value).tally patterns line index t =
      { vars := t.vars.setUser name (Evaluation.expression t.vars index value).value
        items := t.items
        errors := t.errors ++
          (Evaluation.expression t.vars index value).faults.map (RuntimeError.mk line) } := by
  rw [tally, stored, faults, if_pos huser, if_pos huser]
  rfl

end Action

mutual

def Command.tally (patterns : PatternTable) (index : Option Int32) (c : Command) (t : Tally) :
    Tally :=
  match c with
  | .act line a => a.tally patterns line index t
  | .loop line count body =>
    let n := Evaluation.integer t.vars index count
    let t := t.fault line n.faults
    if n.value < 0 then t.fault line [.negativeCount n.value]
    else t.passes (fun i => tallyAll patterns (some i) body) 0 n.value.toNatClampNeg
  | .choice line condition yes no =>
    let taken := Evaluation.condition t.vars index condition
    let t := t.fault line taken.faults
    if taken.value then tallyAll patterns index yes t else tallyAll patterns index no t

def Command.tallyAll (patterns : PatternTable) (index : Option Int32) (cs : List Command)
    (t : Tally) : Tally :=
  match cs with
  | [] => t
  | c :: rest => tallyAll patterns index rest (c.tally patterns index t)

end

theorem Command.tallyAll_append (patterns : PatternTable) (index : Option Int32)
    (cs cs' : List Command) (t : Tally) : tallyAll patterns index (cs ++ cs') t =
      tallyAll patterns index cs' (tallyAll patterns index cs t) := by
  induction cs generalizing t with
  | nil => rw [List.nil_append, tallyAll]
  | cons c cs ih => rw [List.cons_append, tallyAll, ih, tallyAll]

namespace Generation

variable {host : Host} {patterns : PatternTable} {index : Option Int32} {g g' g'' : Generation}

def tally (g : Generation) : Tally := ⟨g.vars, g.items.size, g.errors⟩

theorem tally_fault (line : Nat) (causes : List RuntimeCause) (g : Generation) :
    (g.fault line causes).tally = g.tally.fault line causes := by
  rw [tally, errors_fault]
  rfl

theorem tally_yieldIf (p : Prop) [Decidable p] (host : Host) (g : Generation) :
    (if p then g.yield host else g).tally = g.tally := by
  split <;> rfl

theorem faults_act (a : Action) (g : Generation) :
    a.faults patterns index g = a.faults patterns index { vars := g.vars } := by
  cases a with
  | declare name init => cases init <;> rfl
  | _ => rfl

theorem vars_act_eq (line : Nat) (a : Action) (g : Generation) :
    (g.act patterns line index a).vars = a.stored index g.vars := by
  cases a with
  | declare name init => cases init <;> rfl
  | assign name value =>
    rw [act, Action.stored]
    dsimp only
    split <;> rfl
  | color args | fill args | resetTransforms | scale args => rfl
  | translate args | rotate args => exact vars_transform _ _ _
  | draw shape args => exact vars_draw _ _ _ _ _ _

theorem size_items_act (line : Nat) (a : Action) (g : Generation) :
    (g.act patterns line index a).items.size = g.items.size + a.drawn patterns := by
  cases a with
  | declare name init => cases init <;> rfl
  | assign name value =>
    rw [act]
    dsimp only
    split <;> rfl
  | color args | fill args | resetTransforms | scale args => rfl
  | translate args | rotate args =>
    rw [act, items_transform]
    rfl
  | draw shape args =>
    rw [act, draw, Action.drawn]
    dsimp only
    split
    next hstamp =>
      cases hfind : patterns.find? (stampName args) with
      | none =>
        simp [hstamp]
        rfl
      | some p => simp [fault]
    next hstamp => simp [hstamp, fault]

theorem tally_act (line : Nat) (a : Action) (g : Generation) :
    (g.act patterns line index a).tally = a.tally patterns line index g.tally := by
  rw [tally, vars_act_eq, size_items_act, errors_act, faults_act]
  rfl

/-- What leads from `g` to `g'` changes the tally by `f`, unless it is stopped on the way. -/
def TalliesTo (g : Generation) (f : Tally → Tally) (g' : Generation) : Prop :=
  g'.signal.raised = false → g'.tally = f g.tally

namespace TalliesTo

variable {f f' : Tally → Tally}

theorem stopped (h : g'.signal.raised = true) : g.TalliesTo f g' := by
  intro hdown
  rw [h] at hdown
  cases hdown

theorem trans (h : g.TalliesTo f g') (h' : g'.TalliesTo f' g'')
    (hstop : g'.signal.raised = true → g''.signal.raised = true) :
    g.TalliesTo (fun t => f' (f t)) g'' := by
  intro hdown
  rw [h' hdown, h (down_before hstop hdown)]

end TalliesTo

theorem talliesTo_iterate {body : Int32 → Generation → Generation}
    {body' : Int32 → Tally → Tally} (hbody : ∀ i g, TalliesTo g (body' i) (body i g))
    (i left : Nat) (g : Generation) :
    g.TalliesTo (Tally.passes body' i left) (iterate host body i left g) := by
  induction left generalizing i g with
  | zero => exact fun _ => rfl
  | succ left ih =>
    rw [iterate]
    dsimp only
    split
    next hraised => exact .stopped hraised
    next =>
      have hpass := hbody (Int32.ofNat i) (g.poll host)
      have hyield : (body (Int32.ofNat i) (g.poll host)).TalliesTo id _ :=
        fun _ => tally_yieldIf ((i + 1) % iterationsPerYield = 0) host _
      refine (hpass.trans hyield (raised_yieldIf _)).trans (ih (i + 1) _) fun hraised => ?_
      have hstopped : visitsOfLoop host body (fun _ _ => []) (i + 1) left _ = [] ∧ _ :=
        stopped_iterate (i + 1) left hraised
      exact hstopped.2

mutual

theorem talliesTo_execute (index : Option Int32) (c : Command) (g : Generation) :
    g.TalliesTo (c.tally patterns index) (execute host patterns index c g) := by
  cases c with
  | act line a =>
    rw [execute]
    exact fun _ => tally_act line a g
  | loop line count body =>
    rw [execute]
    intro hdown
    rw [Command.tally]
    change _ = if (Evaluation.integer g.vars index count).value < 0 then _ else _
    split at hdown
    next hneg =>
      rw [if_pos hneg, if_pos hneg, tally_fault, tally_fault]
      rfl
    next hnonneg =>
      rw [if_neg hnonneg, if_neg hnonneg]
      rw [talliesTo_iterate (fun i g => talliesTo_executeAll (some i) body g) 0 _ _ hdown,
        tally_fault]
      rfl
  | choice line condition yes no =>
    rw [execute]
    intro hdown
    rw [Command.tally]
    change _ = if (Evaluation.condition g.vars index condition).value then _ else _
    split at hdown
    next htaken =>
      rw [if_pos htaken, if_pos htaken, talliesTo_executeAll index yes _ hdown, tally_fault]
      rfl
    next htaken =>
      rw [if_neg htaken, if_neg htaken, talliesTo_executeAll index no _ hdown, tally_fault]
      rfl

theorem talliesTo_executeAll (index : Option Int32) (cs : List Command) (g : Generation) :
    g.TalliesTo (Command.tallyAll patterns index cs) (executeAll host patterns index cs g) := by
  cases cs with
  | nil =>
    rw [executeAll]
    intro _
    rw [Command.tallyAll]
  | cons c rest =>
    rw [executeAll]
    split
    next hraised => exact .stopped hraised
    next =>
      have hrest := (talliesTo_execute index c (g.poll host)).trans
        (talliesTo_executeAll index rest _) fun hraised => (stopped_executeAll [] rest hraised).2
      intro hdown
      rw [Command.tallyAll]
      exact hrest hdown

end

theorem talliesTo_runFrom (done : Nat) (cs : List Command) (g : Generation) :
    g.TalliesTo (Command.tallyAll patterns none cs) (runFrom host patterns done cs g) := by
  induction cs generalizing done g with
  | nil =>
    intro _
    rw [Command.tallyAll]
    rfl
  | cons c rest ih =>
    rw [runFrom]
    dsimp only
    split
    next hraised => exact .stopped hraised
    next =>
      have hyield : (execute host patterns none c (g.poll host)).TalliesTo id _ :=
        fun _ => tally_yieldIf ((done + 1) % commandsPerYield = 0) host _
      have hrest := ((talliesTo_execute none c (g.poll host)).trans hyield
        (raised_yieldIf _)).trans (ih (done + 1) _) fun hraised =>
          (stopped_runFrom (done + 1) rest hraised).2
      intro hdown
      rw [Command.tallyAll]
      exact hrest hdown

end Generation

theorem Session.tally_generate {s : Session} {atPoll : Nat → Bool}
    (h : (s.generate atPoll).progress = .complete) : (s.generate atPoll).last.tally =
      Command.tallyAll s.script.patterns none s.script.commands
        ⟨s.environment s.last.vars.clearUser, 0, []⟩ :=
  Generation.talliesTo_runFrom 0 s.script.commands s.start (down_of_complete h)

end PatternScript
