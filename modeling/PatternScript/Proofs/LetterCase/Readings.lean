import PatternScript.Proofs.LetterCase.Headers
import PatternScript.Proofs.Reading.Steps

/-!
# Scripts and the case of letters

Reading a folded line after what a folded reading has met so far is folding what the line does.
Since a line is read only after its outer blanks are removed, two sources whose trimmed lines
are equal up to the case of ASCII letters come to equal results up to that case.
-/
namespace PatternScript

namespace Text

/-- Whether two lines are equal without outer blanks and up to the case of ASCII letters. -/
def Alike (text text' : List Char) : Prop := sameAscii (trim text) (trim text')

instance (text text' : List Char) : Decidable (Alike text text') :=
  inferInstanceAs (Decidable (_ = true))

theorem Alike.fold_trim_eq {text text' : List Char} (h : Alike text text') :
    fold (trim text) = fold (trim text') := by
  rwa [Alike, sameAscii, beq_iff_eq] at h

theorem statement?_fold (text : List Char) :
    statement? (fold text) = (statement? text).map fun s => (s.1, fold s.2) := by
  rw [statement?, trim_fold, statement?]
  generalize trim text = trimmed
  by_cases hremark : ∃ rest, trimmed = '#' :: rest
  · obtain ⟨rest, rfl⟩ := hremark
    rfl
  have hother := not_exists.1 hremark
  have hfold := fold_ne_cons (by decide) hother
  cases trimmed with
  | nil => rfl
  | cons c rest =>
    split
    next h => cases h
    next h => exact absurd h (hfold _)
    next =>
      split
      next h => cases h
      next h => exact absurd h (hother _)
      next => rw [splitKeyword_fold]; rfl

end Text

mutual

def Command.fold : Command → Command
  | .act line a => .act line a.fold
  | .loop line count body => .loop line count.fold (foldAll body)
  | .choice line condition yes no =>
    .choice line (condition.map Token.fold) (foldAll yes) (foldAll no)

def Command.foldAll : List Command → List Command
  | [] => []
  | c :: rest => c.fold :: foldAll rest

end

theorem Command.foldAll_eq_map (cs : List Command) : foldAll cs = cs.map Command.fold := by
  induction cs with
  | nil => rfl
  | cons c cs ih => rw [foldAll, ih, List.map_cons]

def ParseError.fold (e : ParseError) : ParseError := { e with cause := e.cause.fold }

def ParseWarning.fold (w : ParseWarning) : ParseWarning := { w with remark := w.remark.fold }

namespace PendingBlock

def fold : PendingBlock → PendingBlock
  | loop line count body => loop line count.fold (body.map Command.fold)
  | choice line condition yes no =>
    choice line (condition.map Token.fold) (yes.map Command.fold) (no.map (·.map Command.fold))

theorem line_fold (b : PendingBlock) : b.fold.line = b.line := by cases b <;> rfl

theorem kind_fold (b : PendingBlock) : b.fold.kind = b.kind := by cases b <;> rfl

theorem push_fold (b : PendingBlock) (c : Command) : b.fold.push c.fold = (b.push c).fold := by
  cases b with
  | loop line count body => simp [fold, push]
  | choice line condition yes no => cases no <;> simp [fold, push]

theorem close_fold (b : PendingBlock) : b.fold.close = b.close.fold := by
  cases b with
  | loop line count body => simp [fold, close, Command.fold, Command.foldAll_eq_map]
  | choice line condition yes no =>
    cases no <;> simp [fold, close, Command.fold, Command.foldAll_eq_map]

end PendingBlock

namespace Reading

def fold (r : Reading) : Reading where
  commands := r.commands.map Command.fold
  blocks := r.blocks.map PendingBlock.fold
  patterns := PatternTable.fold r.patterns
  declared := r.declared
  errors := r.errors.map ParseError.fold
  warnings := r.warnings.map ParseWarning.fold

variable {α β : Type} (r : Reading) (line : Nat) (args : List Char)

theorem push_fold (c : Command) : r.fold.push c.fold = (r.push c).fold := by
  rw [push, push]
  cases h : r.blocks with
  | nil => simp [fold, h]
  | cons b outer => simp [fold, h, PendingBlock.push_fold]

theorem refuse_fold (cause : ParseCause) :
    r.fold.refuse line cause.fold = (r.refuse line cause).fold := by
  simp [refuse, fold, ParseError.fold]

theorem warn_fold (remarks : List ParseRemark) :
    r.fold.warn line (remarks.map ParseRemark.fold) = (r.warn line remarks).fold := by
  rw [warn, warn, fold, fold, Reading.mk.injEq]
  refine ⟨rfl, rfl, rfl, rfl, rfl, Array.toList_inj.1 ?_⟩
  simp [ParseWarning.fold, Function.comp_def]

theorem orRefuse_fold {f : α → β} (read : Except ParseCause α) {go : α → Reading}
    {go' : β → Reading} (hgo : ∀ a, go' (f a) = (go a).fold) :
    r.fold.orRefuse line (foldRead f read) go' = (r.orRefuse line read go).fold := by
  cases read with
  | ok a => exact hgo a
  | error cause => exact refuse_fold r line cause

theorem ignoring_fold (keyword : String) :
    r.fold.ignoring line keyword (Text.fold args) = (r.ignoring line keyword args).fold := by
  cases args with
  | nil => rfl
  | cons c args =>
    have hremark := warn_fold r line [.ignoredArguments keyword (String.ofList (c :: args))]
    rw [List.map_singleton, ParseRemark.fold, Text.foldString_ofList] at hremark
    exact hremark

theorem openLoop_fold : r.fold.openLoop line (Text.fold args) = (r.openLoop line args).fold := by
  have hread := folds_iff.1 (Declaration.folds_readCount r.declared args)
  rw [openLoop, openLoop, show r.fold.declared = r.declared from rfl, hread]
  cases Declaration.readCount r.declared args with
  | ok count => simp [foldRead, fold, PendingBlock.fold]
  | error cause =>
    dsimp only [foldRead]
    rw [refuse_fold]
    simp [fold, PendingBlock.fold, Token.fold]

theorem openChoice_fold :
    r.fold.openChoice line (Text.fold args) = (r.openChoice line args).fold := by
  have hread := folds_iff.1 (Declaration.folds_readCondition r.declared args)
  rw [openChoice, openChoice, show r.fold.declared = r.declared from rfl, hread]
  cases Declaration.readCondition r.declared args with
  | ok condition => simp [foldRead, fold, PendingBlock.fold]
  | error cause =>
    dsimp only [foldRead]
    rw [refuse_fold]
    simp [fold, PendingBlock.fold]

theorem blocks_fold : r.fold.blocks = r.blocks.map PendingBlock.fold := rfl

theorem turnToElse_fold : r.fold.turnToElse line = (r.turnToElse line).fold := by
  rw [turnToElse, turnToElse, blocks_fold]
  match r.blocks with
  | [] => exact refuse_fold r line .elseAlone
  | .loop start _ _ :: _ => exact refuse_fold r line (.elseInside .loop start)
  | .choice start _ _ (some _) :: _ => exact refuse_fold r line (.elseTwice start)
  | .choice start condition yes none :: outer => simp [fold, PendingBlock.fold]

theorem close_fold (expected : BlockKind) :
    r.fold.close line expected = (r.close line expected).fold := by
  rw [close, close, blocks_fold]
  match r.blocks with
  | [] => exact refuse_fold r line (.endAlone expected)
  | b :: outer =>
    simp only [List.map_cons, PendingBlock.kind_fold, PendingBlock.line_fold,
      PendingBlock.close_fold]
    split
    · exact push_fold { r with blocks := outer } b.close
    · exact refuse_fold r line (.endInside expected b.kind b.line)

theorem declare_fold : r.fold.declare line (Text.fold args) = (r.declare line args).fold := by
  have hread := folds_iff.1 (Declaration.folds_readVar r.declared args)
  rw [declare, declare, show r.fold.declared = r.declared from rfl, hread]
  refine orRefuse_fold r line _ fun a => ?_
  refine orRefuse_fold { r with declared := r.declared ++ [a.1] } line a.2 fun tokens => ?_
  exact push_fold { r with declared := r.declared ++ [a.1] } (.act line (.declare a.1 tokens))

theorem assign_fold :
    (r.fold.orRefuse line (Declaration.readLet r.declared (Text.fold args)) fun a =>
        r.fold.push (.act line a)) =
      (r.orRefuse line (Declaration.readLet r.declared args) fun a =>
        r.push (.act line a)).fold := by
  rw [folds_iff.1 (Declaration.folds_readLet r.declared args)]
  exact orRefuse_fold r line _ fun a => push_fold r (.act line a)

theorem define_fold : r.fold.define line (Text.fold args) = (r.define line args).fold := by
  rw [define, define, show r.fold.patterns = PatternTable.fold r.patterns from rfl,
    Definition.read_fold]
  dsimp only
  rw [warn_fold]
  exact orRefuse_fold _ line _ fun patterns => rfl

theorem pushWith_fold {make : Arguments → Action} (hmake : ∀ a, make a.fold = (make a).fold) :
    r.fold.pushWith line (Text.fold args) make = (r.pushWith line args make).fold := by
  rw [pushWith, pushWith, show r.fold.declared = r.declared from rfl,
    folds_iff.1 (Arguments.folds_parseDeclared r.declared args)]
  refine orRefuse_fold r line _ fun a => ?_
  rw [hmake]
  exact push_fold r (.act line (make a))

theorem readCommand_fold (keyword : String) :
    r.fold.readCommand line keyword (Text.fold args) = (r.readCommand line keyword args).fold := by
  unfold readCommand
  split
  next => exact define_fold r line args
  next => exact openLoop_fold r line args
  next => exact openChoice_fold r line args
  next => rw [ignoring_fold, turnToElse_fold]
  next => rw [ignoring_fold, close_fold]
  next => rw [ignoring_fold, close_fold]
  next => exact declare_fold r line args
  next => exact assign_fold r line args
  next => exact pushWith_fold r line args fun _ => rfl
  next => exact pushWith_fold r line args fun _ => rfl
  next => exact pushWith_fold r line args fun _ => rfl
  next => exact pushWith_fold r line args fun _ => rfl
  next => exact pushWith_fold r line args fun _ => rfl
  next =>
    rw [ignoring_fold]
    exact push_fold _ (.act line .resetTransforms)
  next =>
    split
    next => exact pushWith_fold r line args fun _ => rfl
    next => exact refuse_fold r line (.unknownCommand keyword)

theorem readLine_fold (text : List Char) :
    r.fold.readLine line (Text.fold text) = (r.readLine line text).fold := by
  rw [readLine_eq, readLine_eq, Text.statement?_fold]
  cases Text.statement? text with
  | none => rfl
  | some s => exact readCommand_fold r line s.2 s.1

variable {r} {r' : Reading} {text text' : List Char}

theorem fold_readLine_eq (hr : r.fold = r'.fold) (htext : Text.Alike text text') (line : Nat) :
    (r.readLine line text).fold = (r'.readLine line text').fold := by
  have hstatement : Text.statement? (Text.fold text) = Text.statement? (Text.fold text') := by
    rw [Text.statement?, Text.trim_fold, htext.fold_trim_eq, ← Text.trim_fold, ← Text.statement?]
  rw [← readLine_fold, ← readLine_fold, hr, readLine_eq, readLine_eq, hstatement]

theorem fold_readLines_eq {lines lines' : List (List Char)} (hr : r.fold = r'.fold)
    (hlines : List.Forall₂ Text.Alike lines lines') (line : Nat) :
    (r.readLines line lines).fold = (r'.readLines line lines').fold := by
  induction hlines generalizing r r' line with
  | nil => exact hr
  | cons htext _ ih => exact ih (fold_readLine_eq hr htext line) (line + 1)

theorem finish_fold (r : Reading) : r.fold.finish = r.finish.fold := by
  rw [finish, finish, fold, fold, Reading.mk.injEq]
  refine ⟨rfl, rfl, rfl, rfl, Array.toList_inj.1 ?_, rfl⟩
  simp [Function.comp_def, PendingBlock.line_fold, PendingBlock.kind_fold, ParseError.fold,
    ParseCause.fold]

theorem fold_ofSource_eq {source source' : String}
    (h : List.Forall₂ Text.Alike (Text.lines source.toList) (Text.lines source'.toList)) :
    (ofSource source).fold = (ofSource source').fold := by
  have hread : (readLines {} 1 (Text.lines source.toList)).fold = _ := fold_readLines_eq rfl h 1
  rw [ofSource, ofSource, ← finish_fold, ← finish_fold, hread]

end Reading

def Script.fold (s : Script) : Script where
  commands := Command.foldAll s.commands
  patterns := PatternTable.fold s.patterns
  declared := s.declared

theorem Reading.script_fold (r : Reading) : r.fold.script = r.script.fold := by
  simp [script, fold, Script.fold, Command.foldAll_eq_map]

def ParseError.place (e : ParseError) : ParseCode × Nat := (e.code, e.line)

theorem ParseError.place_fold (e : ParseError) : e.fold.place = e.place := by
  rw [place, code, fold, ParseCause.code_fold, place, code]

theorem Script.agrees_compile {source source' : String}
    (h : List.Forall₂ Text.Alike (Text.lines source.toList) (Text.lines source'.toList)) :
    Agrees (fun es es' => es.map ParseError.place = es'.map ParseError.place)
      (fun s s' => s.fold = s'.fold) (compile source) (compile source') := by
  have hfold := Reading.fold_ofSource_eq h
  have hscript := congrArg Reading.script hfold
  have herrors : (Reading.ofSource source).errors.map ParseError.fold =
      (Reading.ofSource source').errors.map ParseError.fold := congrArg Reading.errors hfold
  have hempty : (Reading.ofSource source).errors.isEmpty =
      (Reading.ofSource source').errors.isEmpty := by
    have hsize := congrArg Array.size herrors
    rw [Array.size_map, Array.size_map] at hsize
    rw [Array.isEmpty, hsize, ← Array.isEmpty]
  have hplaces := congrArg (fun es => es.toList.map ParseError.place) herrors
  simp only [Array.toList_map, List.map_map, Function.comp_def, ParseError.place_fold] at hplaces
  rw [Reading.script_fold, Reading.script_fold] at hscript
  rw [compile, compile, Reading.result, Reading.result, hempty]
  split
  · exact .ok hscript
  · exact .error hplaces

end PatternScript
