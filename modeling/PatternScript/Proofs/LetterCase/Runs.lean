import PatternScript.Proofs.LetterCase.Readings
import PatternScript.Proofs.Running.Faults
import PatternScript.Run.Session

/-!
# Runs and the case of letters

Running a folded script from a folded state folds the state in which the run ends. So scripts
that are read of alike sources leave the same display list, but for the letter case in which the
names of its pictures were written.
-/
namespace PatternScript

open Text (foldString)

def RuntimeCause.fold : RuntimeCause → RuntimeCause
  | malformedNear found => malformedNear found.fold
  | notInteger found => notInteger found.fold
  | notColor found => notColor found.fold
  | fillUnknown name => fillUnknown (foldString name)
  | fillNotName found => fillNotName found.fold
  | stampUnknown name => stampUnknown (foldString name)
  | cause => cause

theorem RuntimeCause.code_fold (cause : RuntimeCause) : cause.fold.code = cause.code := by
  cases cause <;> rfl

def Evaluated.fold {α : Type} (e : Evaluated α) : Evaluated α :=
  { e with faults := e.faults.map RuntimeCause.fold }

theorem Evaluated.value_fold {α : Type} (e : Evaluated α) : e.fold.value = e.value := rfl

theorem Evaluated.faults_fold {α : Type} (e : Evaluated α) :
    e.fold.faults = e.faults.map RuntimeCause.fold := rfl

namespace Evaluation

variable (store : Store) (index : Option Int32)

theorem fold_chainValue (a : Int32) (chain : Chain) :
    (chainValue a chain).fold = chainValue a chain := by
  have hkept : ∀ cause ∈ (chainValue a chain).faults, cause.fold = cause := by
    intro cause hcause
    rcases mem_faults_chainValue hcause with rfl | rfl <;> rfl
  rw [Evaluated.fold, List.map_congr_left hkept, List.map_id']

theorem fold_readVariable (v : VarRef) :
    (readVariable store index v).fold = readVariable store index v := by
  have hkept : ∀ cause ∈ (readVariable store index v).faults, cause.fold = cause := by
    intro cause hcause
    rcases mem_faults_readVariable hcause with ⟨rfl, -⟩ | ⟨rfl, -⟩ <;> rfl
  rw [Evaluated.fold, List.map_congr_left hkept, List.map_id']

theorem operand?_fold (t : Token) :
    operand? store index t.fold = (operand? store index t).map Evaluated.fold := by
  cases t with
  | var v => exact congrArg some (fold_readVariable store index v).symm
  | _ => rfl

theorem integer_fold (t : Token) :
    integer store index t.fold = (integer store index t).fold := by
  rw [integer, integer, operand?_fold]
  cases operand? store index t <;> rfl

theorem readChain_fold (ts : List Token) :
    readChain store index (ts.map Token.fold) = (readChain store index ts).fold := by
  fun_induction readChain store index ts with
  | case1 => rfl
  | case2 o => rfl
  | case3 o t rest b hb tail ih =>
    rw [List.map_cons, List.map_cons, show (Token.op o).fold = .op o from rfl, readChain,
      operand?_fold, hb, ih]
    simp [Evaluated.fold, tail]
  | case4 o t rest hb =>
    rw [List.map_cons, List.map_cons, show (Token.op o).fold = .op o from rfl, readChain,
      operand?_fold, hb]
    rfl
  | case5 t rest hone hmore =>
    cases t with
    | op o =>
      cases rest with
      | nil => exact (hone o rfl rfl).elim
      | cons t' rest => exact (hmore o t' rest rfl rfl).elim
    | _ => rfl

theorem expression_fold (ts : List Token) :
    expression store index (ts.map Token.fold) = (expression store index ts).fold := by
  cases ts with
  | nil => rfl
  | cons t rest =>
    rw [List.map_cons, expression, expression, operand?_fold, readChain_fold]
    cases operand? store index t with
    | none => rfl
    | some first =>
      dsimp only [Option.map_some]
      cases hchain : (readChain store index rest).value with
      | none => simp [Evaluated.fold, hchain]
      | some chain =>
        have htotal := congrArg Evaluated.faults (fold_chainValue first.value chain)
        dsimp only [Evaluated.fold] at htotal
        simp [Evaluated.fold, hchain, htotal]

theorem condition_fold (ts : List Token) :
    condition store index (ts.map Token.fold) = (condition store index ts).fold := by
  rw [condition, condition, List.filter_map, List.takeWhile_map, List.dropWhile_map,
    ← List.map_drop, expression_fold, expression_fold, Token.isComparison_comp_fold,
    Token.not_isComparison_comp_fold]
  rcases ts.filter Token.isComparison with _ | ⟨t, _ | ⟨t', found⟩⟩
  · rfl
  · cases t with
    | compare rel => simp [Evaluated.fold, Token.fold]
    | _ => rfl
  · cases t <;> simp [Evaluated.fold, Token.fold, RuntimeCause.fold]

end Evaluation

namespace Pattern

def upper (p : Pattern) : Pattern := { p with name := p.key }

theorem isOpaque_fold (p : Pattern) : p.fold.isOpaque = p.isOpaque := rfl

theorem upper_fold (p : Pattern) : p.fold.upper = p.upper := by
  rw [upper, key_fold, fold, upper]

end Pattern

namespace Item

def fold (item : Item) : Item :=
  { item with fill := item.fill.map Pattern.fold, stamp := item.stamp.map Pattern.fold }

def upper (item : Item) : Item :=
  { item with fill := item.fill.map Pattern.upper, stamp := item.stamp.map Pattern.upper }

theorem upper_fold (item : Item) : item.fold.upper = item.upper := by
  simp [upper, fold, Function.comp_def, Pattern.upper_fold]

end Item

namespace RuntimeError

def fold (e : RuntimeError) : RuntimeError := { e with cause := e.cause.fold }

def place (e : RuntimeError) : RuntimeCode × Nat := (e.code, e.line)

theorem place_fold (e : RuntimeError) : e.fold.place = e.place := by
  rw [place, code, fold, RuntimeCause.code_fold, place, code]

end RuntimeError

def Notice.fold : Notice → Notice
  | fault e => fault e.fold
  | singular line => singular line

theorem Notice.error?_fold (n : Notice) : n.fold.error? = n.error?.map RuntimeError.fold := by
  cases n <;> rfl

def Pen.fold (d : Pen) : Pen := { d with fill := d.fill.map Pattern.fold }

theorem Pen.transform?_fold (d : Pen) (t : Affine) :
    d.fold.transform? t = (d.transform? t).map Pen.fold := by
  simp [transform?, fold, Function.comp_def]

namespace Generation

def fold (g : Generation) : Generation where
  vars := g.vars
  pen := g.pen.fold
  items := g.items.map Item.fold
  notices := g.notices.map Notice.fold
  signal := g.signal

@[simp] theorem vars_fold (g : Generation) : g.fold.vars = g.vars := rfl

@[simp] theorem pen_fold (g : Generation) : g.fold.pen = g.pen.fold := rfl

@[simp] theorem signal_fold (g : Generation) : g.fold.signal = g.signal := rfl

variable (host : Host) (patterns : PatternTable) (line : Nat) (index : Option Int32)
  (args : Arguments) (g : Generation)

theorem fault_fold (causes : List RuntimeCause) :
    g.fold.fault line (causes.map RuntimeCause.fold) = (g.fault line causes).fold := by
  rw [fault, fault, fold, fold, mk.injEq]
  refine ⟨rfl, rfl, rfl, Array.toList_inj.1 ?_, rfl⟩
  simp [Notice.fold, RuntimeError.fold, Function.comp_def]

theorem integer_fold (key : String) (default : Int32) :
    g.fold.integer index args.fold key default = (g.integer index args key default).fold := by
  rw [integer, integer, Arguments.fold, NameMap.get?_map]
  cases args.get? key with
  | none => rfl
  | some t => exact Evaluation.integer_fold g.vars index t

theorem shapeParams_fold (keys : List String) :
    g.fold.shapeParams index args.fold keys = (g.shapeParams index args keys).fold := by
  induction keys with
  | nil => rfl
  | cons key rest ih =>
    rw [shapeParams, shapeParams, integer_fold, ih]
    simp [Evaluated.fold]

theorem chooseColor_fold : chooseColor args.fold = (chooseColor args).fold := by
  rw [chooseColor, chooseColor, Arguments.fold, NameMap.get?_map]
  cases args.get? "NAME" with
  | none => rfl
  | some t =>
    have hcolor : t.fold.text?.bind Color.ofName? = t.text?.bind Color.ofName? := by
      cases t with
      | text s =>
        simp [Token.fold, Token.text?, Color.ofName?, foldString, Text.upper_fold]
      | _ => rfl
    rw [Option.map_some]
    dsimp only
    rw [hcolor]
    cases t.text?.bind Color.ofName? <;> rfl

theorem chooseFill_fold :
    (chooseFill (PatternTable.fold patterns) args.fold).value =
        (chooseFill patterns args).value.map Pattern.fold ∧
      (chooseFill (PatternTable.fold patterns) args.fold).faults =
        (chooseFill patterns args).faults.map RuntimeCause.fold := by
  rw [chooseFill, chooseFill, Arguments.fold, NameMap.get?_map]
  cases args.get? "NAME" with
  | none => exact ⟨rfl, rfl⟩
  | some t =>
    cases t with
    | text name =>
      simp only [Option.map_some, Token.fold, PatternTable.find?_fold]
      rw [foldString, String.toList_ofList, Text.sameAscii_fold]
      split
      · exact ⟨rfl, rfl⟩
      · cases PatternTable.find? patterns name <;> exact ⟨rfl, rfl⟩
    | _ => exact ⟨rfl, rfl⟩

theorem stampName_fold : stampName args.fold = foldString (stampName args) := by
  rw [stampName, stampName, Arguments.fold, NameMap.get?_map]
  cases args.get? "NAME" with
  | none => rfl
  | some t => cases t <;> rfl

theorem draw_fold (shape : Shape) :
    g.fold.draw (PatternTable.fold patterns) line index shape args.fold =
      (g.draw patterns line index shape args).fold := by
  rw [draw, draw, shapeParams_fold, stampName_fold, PatternTable.find?_fold]
  simp only [Evaluated.fold, fault_fold]
  split
  next =>
    cases PatternTable.find? patterns (stampName args) with
    | none => exact fault_fold line _ [.stampUnknown (stampName args)]
    | some p => simp [fold, Item.fold, Pen.fold, Pattern.isOpaque_fold]
  next => simp [fold, Item.fold, Pen.fold]

theorem transform_fold (t : Affine) : g.fold.transform line t = (g.transform line t).fold := by
  rw [transform, transform, pen_fold, Pen.transform?_fold]
  cases g.pen.transform? t with
  | none => simp [fold, Notice.fold]
  | some pen => rfl

theorem act_fold (a : Action) :
    g.fold.act (PatternTable.fold patterns) line index a.fold =
      (g.act patterns line index a).fold := by
  cases a with
  | declare name init =>
    cases init with
    | nil => rfl
    | cons t init =>
      have hvalue := Evaluation.expression_fold g.vars index (t :: init)
      rw [Action.fold, act, act, vars_fold, hvalue]
      · simp only [Evaluated.value_fold, Evaluated.faults_fold]
        rw [fault_fold]
        rfl
      · simp
      · simp
  | assign name value =>
    rw [Action.fold, act, act, vars_fold, Evaluation.expression_fold]
    simp only [Evaluated.value_fold, Evaluated.faults_fold]
    split
    · rw [fault_fold]
      rfl
    · exact fault_fold line g [.assignUndeclared name]
  | color args =>
    rw [Action.fold, act, act, chooseColor_fold]
    simp only [Evaluated.value_fold, Evaluated.faults_fold]
    rw [fault_fold]
    rfl
  | fill args =>
    have hfill := chooseFill_fold patterns args
    rw [Action.fold, act, act]
    dsimp only
    rw [hfill.1, hfill.2, fault_fold]
    rfl
  | resetTransforms => rfl
  | translate args =>
    rw [Action.fold, act, act, integer_fold, integer_fold]
    simp only [Evaluated.value_fold, Evaluated.faults_fold]
    rw [← List.map_append, fault_fold, transform_fold]
  | rotate args =>
    rw [Action.fold, act, act, integer_fold]
    simp only [Evaluated.value_fold, Evaluated.faults_fold]
    rw [fault_fold, transform_fold]
  | scale args =>
    rw [Action.fold, act, act, integer_fold]
    simp only [Evaluated.value_fold, Evaluated.faults_fold]
    rw [fault_fold]
    rfl
  | draw shape args => exact draw_fold patterns line index args g shape

theorem poll_fold : g.fold.poll host = (g.poll host).fold := rfl

theorem yieldIf_fold (p : Prop) [Decidable p] :
    (if p then g.fold.yield host else g.fold) = (if p then g.yield host else g).fold := by
  split <;> rfl

theorem iterate_fold {body body' : Int32 → Generation → Generation}
    (hbody : ∀ i g, body' i g.fold = (body i g).fold) (i left : Nat) (g : Generation) :
    iterate host body' i left g.fold = (iterate host body i left g).fold := by
  -- The bodies are told apart by `hbody` alone: what they run is no part of the induction.
  induction left generalizing i g with
  | zero => rfl
  | succ left ih =>
    rw [iterate, iterate, poll_fold]
    dsimp only
    rw [signal_fold, hbody, yieldIf_fold]
    split
    · rfl
    · exact ih (i + 1) _

mutual

theorem execute_fold (index : Option Int32) (c : Command) (g : Generation) :
    execute host (PatternTable.fold patterns) index c.fold g.fold =
      (execute host patterns index c g).fold := by
  cases c with
  | act line a => exact act_fold patterns line index g a
  | loop line count body =>
    -- The count and its faults are rewritten apart: the test of the count carries its own decision.
    have hcount := Evaluation.integer_fold g.vars index count
    have hvalue := (congrArg Evaluated.value hcount).trans (Evaluated.value_fold _)
    rw [Command.fold, execute, execute, vars_fold, hvalue, hcount, Evaluated.faults_fold,
      fault_fold]
    split
    · exact fault_fold line _ [.negativeCount _]
    · exact iterate_fold host (fun i g => executeAll_fold (some i) body g) 0 _ _
  | choice line condition yes no =>
    have htaken := Evaluation.condition_fold g.vars index condition
    have hvalue := (congrArg Evaluated.value htaken).trans (Evaluated.value_fold _)
    rw [Command.fold, execute, execute, vars_fold, hvalue, htaken, Evaluated.faults_fold,
      fault_fold]
    split
    · exact executeAll_fold index yes _
    · exact executeAll_fold index no _

theorem executeAll_fold (index : Option Int32) (cs : List Command) (g : Generation) :
    executeAll host (PatternTable.fold patterns) index (Command.foldAll cs) g.fold =
      (executeAll host patterns index cs g).fold := by
  cases cs with
  | nil => rfl
  | cons c rest =>
    rw [Command.foldAll, executeAll, executeAll, poll_fold, signal_fold]
    split
    · rfl
    · rw [execute_fold index c, executeAll_fold index rest]

end

theorem runFrom_fold (done : Nat) (cs : List Command) (g : Generation) :
    runFrom host (PatternTable.fold patterns) done (Command.foldAll cs) g.fold =
      (runFrom host patterns done cs g).fold := by
  induction cs generalizing done g with
  | nil => rfl
  | cons c rest ih =>
    rw [Command.foldAll, runFrom, runFrom, poll_fold]
    dsimp only
    rw [signal_fold, execute_fold, yieldIf_fold]
    split
    · rfl
    · exact ih (done + 1) _

theorem run_fold (script : Script) :
    g.fold.run host script.fold = (g.run host script).fold := by
  rw [run, run, Script.fold, runFrom_fold]
  rfl

end Generation

namespace Session

variable {script script' : Script} (s : Session) (atPoll : Nat → Bool)

theorem fold_generate_eq (h : script.fold = script'.fold) :
    ((s.setScript script).generate atPoll).last.fold =
      ((s.setScript script').generate atPoll).last.fold := by
  -- Nothing that folding could change is there when a run starts.
  have hstart : s.start.fold = s.start := by simp [start, Generation.fold, Pen.fold]
  have hrun (script : Script) : ((s.setScript script).generate atPoll).last.fold =
      s.start.run (s.hostOf atPoll) script.fold := by
    conv => rhs; rw [← hstart]
    rw [Generation.run_fold]
    rfl
  rw [hrun, hrun, h]

end Session

namespace Generation

theorem upper_items_fold (g : Generation) :
    g.fold.items.toList.map Item.upper = g.items.toList.map Item.upper := by
  simp [fold, Function.comp_def, Item.upper_fold]

theorem place_errors_fold (g : Generation) :
    g.fold.errors.map RuntimeError.place = g.errors.map RuntimeError.place := by
  have herrors : g.fold.errors = g.errors.map RuntimeError.fold := by
    rw [errors, errors, fold, Array.toList_map, List.filterMap_map, List.map_filterMap,
      show Notice.error? ∘ Notice.fold = _ from funext Notice.error?_fold]
  simp [herrors, Function.comp_def, RuntimeError.place_fold]

end Generation

/-- Alike sources fail to compile with the same errors in the same lines, or else compile to
scripts that leave, in every session, the same items, with their pictures by upper-case names,
and the same errors in the same lines. -/
theorem Script.letter_case_is_immaterial {source source' : String}
    (h : List.Forall₂ Text.Alike (Text.lines source.toList) (Text.lines source'.toList)) :
    Agrees (fun es es' => es.map ParseError.place = es'.map ParseError.place)
      (fun script script' => ∀ (s : Session) (atPoll : Nat → Bool),
        ((s.setScript script).generate atPoll).items.map Item.upper =
            ((s.setScript script').generate atPoll).items.map Item.upper ∧
          ((s.setScript script).generate atPoll).errors.map RuntimeError.place =
            ((s.setScript script').generate atPoll).errors.map RuntimeError.place)
      (compile source) (compile source') := by
  refine (agrees_compile h).mono (fun _ _ hplaces => hplaces) ?_
  intro script script' hfold s atPoll
  have hlast := s.fold_generate_eq atPoll hfold
  constructor
  · rw [Session.items, Session.items, ← Generation.upper_items_fold, hlast,
      Generation.upper_items_fold]
  · rw [Session.errors, Session.errors, ← Generation.place_errors_fold, hlast,
      Generation.place_errors_fold]

theorem Script.letter_case_is_immaterial_of_names :
    let source := "DEFINE PATTERN NAME=\"Dot\" WIDTH=1 HEIGHT=1 DATA=\"1\"\n" ++
      "VAR $A = 2\nDRAW NAME=dot X=$A"
    let source' := "define Pattern name=\"dOT\" width=1 height=1 Data=\"1\"\n" ++
      "\tvar $a = 2 \n draw name=doT x=$a"
    List.Forall₂ Text.Alike (Text.lines source.toList) (Text.lines source'.toList) ∧
      ∃ script script', compile source = .ok script ∧ compile source' = .ok script' ∧
        ∀ s : Session,
          ((s.setScript script).generate).items.map Item.upper =
            ((s.setScript script').generate).items.map Item.upper := by
  intro source source'
  have halike : List.Forall₂ Text.Alike (Text.lines source.toList) (Text.lines source'.toList) := by
    decide +kernel
  have hcompiled : (compile source).toOption.isSome = true := by decide +kernel
  refine ⟨halike, ?_⟩
  have hagrees := letter_case_is_immaterial halike
  generalize compile source = compiled at hagrees hcompiled ⊢
  generalize compile source' = compiled' at hagrees ⊢
  cases hagrees with
  | ok hruns => exact ⟨_, _, rfl, rfl, fun s => (hruns s _).1⟩
  | error => cases hcompiled

end PatternScript
