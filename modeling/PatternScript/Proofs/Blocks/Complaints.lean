import PatternScript.Proofs.Reading.Steps

/-!
# Complaints about nesting

A reading keeps for each open block all that the plain checker wants to know of it, and what a
line does to the two is the same whether or not the line is accepted. So the complaints about
the nesting of blocks, in their order and with their lines, are those that the checker has
about the marks of the source, and nothing else in the source has a say in them.
-/
namespace PatternScript

instance (cause : ParseCause) : Decidable cause.OfNesting :=
  inferInstanceAs (Decidable (_ ∨ _))

def Script.errors (source : String) : List ParseError :=
  match Script.compile source with
  | .ok _ => []
  | .error errors => errors

def ParseError.nesting (errors : List ParseError) : List (ParseCode × Nat) :=
  (errors.filter fun e => decide e.cause.OfNesting).map fun e => (e.code, e.line)

theorem ParseError.nesting_append (errors errors' : List ParseError) :
    nesting (errors ++ errors') = nesting errors ++ nesting errors' := by
  simp [nesting]

open Brackets (check marksOf)

namespace PendingBlock

def frame : PendingBlock → Brackets.Frame
  | loop line _ _ => ⟨line, .loop, false⟩
  | choice line _ _ no => ⟨line, .choice, no.isSome⟩

@[simp] theorem frame_line (b : PendingBlock) : b.frame.line = b.line := by
  cases b <;> rfl

@[simp] theorem frame_kind (b : PendingBlock) : b.frame.kind = b.kind := by
  cases b <;> rfl

@[simp] theorem frame_push (b : PendingBlock) (c : Command) : (b.push c).frame = b.frame := by
  cases b with
  | loop => rfl
  | choice line condition yes no => cases no <;> rfl

end PendingBlock

namespace Reading

variable {r r' : Reading} {line : Nat} {keyword : String} {args : List Char}

def frames (r : Reading) : List Brackets.Frame := r.blocks.map PendingBlock.frame

def complaints (r : Reading) : List (ParseCode × Nat) := ParseError.nesting r.errors.toList

@[simp] theorem frames_push (r : Reading) (c : Command) : (r.push c).frames = r.frames := by
  unfold push frames
  cases r.blocks <;> simp

@[simp] theorem complaints_push (r : Reading) (c : Command) :
    (r.push c).complaints = r.complaints := by
  unfold push complaints
  cases r.blocks <;> rfl

@[simp] theorem frames_refuse (r : Reading) (line : Nat) (cause : ParseCause) :
    (r.refuse line cause).frames = r.frames := rfl

theorem complaints_refuse (r : Reading) (line : Nat) (cause : ParseCause) :
    (r.refuse line cause).complaints =
      r.complaints ++ if cause.OfNesting then [(cause.code, line)] else [] := by
  unfold complaints ParseError.nesting refuse
  split <;> simp_all [ParseError.code]

theorem complaints_refuse_of_not {cause : ParseCause} (h : ¬ cause.OfNesting) :
    (r.refuse line cause).complaints = r.complaints := by
  rw [complaints_refuse, if_neg h, List.append_nil]

theorem complaints_refuse_terminator {cause : ParseCause} (h : cause.code = .terminator) :
    (r.refuse line cause).complaints = r.complaints ++ [(.terminator, line)] := by
  rw [complaints_refuse, if_pos (.inl h), h]

/-- What is complained of so far and what the checker will say about further marks. -/
def verdict (r : Reading) (rest : Brackets.Marks) : List (ParseCode × Nat) :=
  r.complaints ++ check r.frames rest

theorem verdict_refuse_terminator {cause : ParseCause} {m : BlockMark} {rest : Brackets.Marks}
    (h : cause.code = .terminator)
    (hcheck : check r.frames ((line, m) :: rest) = (.terminator, line) :: check r.frames rest) :
    (r.refuse line cause).verdict rest = r.verdict ((line, m) :: rest) := by
  rw [verdict, verdict, hcheck, complaints_refuse_terminator h, frames_refuse, List.append_assoc,
    List.singleton_append]

theorem verdict_turnToElse (r : Reading) (line : Nat) (rest : Brackets.Marks) :
    (r.turnToElse line).verdict rest = r.verdict ((line, .turns) :: rest) := by
  rw [turnToElse]
  split
  next start condition yes outer hblocks =>
    simp [verdict, frames, hblocks, PendingBlock.frame, check, complaints]
  next hblocks =>
    refine verdict_refuse_terminator rfl ?_
    simp [frames, hblocks, PendingBlock.frame, check]
  next hblocks =>
    refine verdict_refuse_terminator rfl ?_
    simp [frames, hblocks, PendingBlock.frame, check]
  next hblocks =>
    refine verdict_refuse_terminator rfl ?_
    simp [frames, hblocks, check]

theorem verdict_close (r : Reading) (line : Nat) (kind : BlockKind) (rest : Brackets.Marks) :
    (r.close line kind).verdict rest = r.verdict ((line, .closes kind) :: rest) := by
  rw [close]
  split
  next b outer hblocks =>
    split
    next hkind =>
      rw [verdict, frames_push, complaints_push]
      simp [verdict, frames, hblocks, hkind, check, complaints]
    next hkind =>
      refine verdict_refuse_terminator rfl ?_
      simp [frames, hblocks, hkind, check]
  next hblocks =>
    refine verdict_refuse_terminator rfl ?_
    simp [frames, hblocks, check]

theorem verdict_of_unmarked {rest : Brackets.Marks} (hmark : BlockMark.ofKeyword? keyword = none)
    (hframes : r'.frames = r.frames) (hcomplaints : r'.complaints = r.complaints) :
    r'.verdict rest = r.verdict (marksOf [(line, keyword)] ++ rest) := by
  simp [verdict, marksOf, hmark, hframes, hcomplaints]

theorem verdict_of_outcome (h : Outcome r line keyword args r') (rest : Brackets.Marks) :
    r'.verdict rest = r.verdict (marksOf [(line, keyword)] ++ rest) := by
  cases h with
  | defines hkeyword =>
    subst hkeyword
    exact verdict_of_unmarked rfl rfl rfl
  | refuses hmark hcause => exact verdict_of_unmarked hmark rfl (complaints_refuse_of_not hcause)
  | acts hkeyword =>
    subst hkeyword
    exact verdict_of_unmarked (Action.mark_keyword _) (frames_push _ _) (complaints_push _ _)
  | declares hkeyword hcause =>
    subst hkeyword
    exact verdict_of_unmarked rfl rfl (complaints_refuse_of_not hcause)
  | opensLoop hkeyword =>
    subst hkeyword
    rfl
  | opensFaultyLoop hkeyword hcause =>
    subst hkeyword
    exact congrArg (· ++ _) (complaints_refuse_of_not hcause)
  | opensChoice hkeyword =>
    subst hkeyword
    rfl
  | opensFaultyChoice hkeyword hcause =>
    subst hkeyword
    exact congrArg (· ++ _) (complaints_refuse_of_not hcause)
  | turns hkeyword =>
    subst hkeyword
    exact verdict_turnToElse _ line rest
  | closes kind hkeyword =>
    subst hkeyword
    have hmarks : marksOf [(line, kind.terminator)] = [(line, .closes kind)] := by
      simp [marksOf, BlockMark.ofKeyword?_terminator]
    rw [hmarks]
    exact verdict_close _ line kind rest

theorem verdict_readLine (r : Reading) (line : Nat) (text : List Char) (rest : Brackets.Marks) :
    (r.readLine line text).verdict rest =
      r.verdict (marksOf (Text.statementsFrom line [text]) ++ rest) := by
  rw [readLine_eq, Text.statementsFrom, Text.statementsFrom, List.append_nil]
  cases Text.statement? text with
  | none => rfl
  | some s => exact verdict_of_outcome (outcome_readCommand r line s.1 s.2) rest

theorem verdict_readLines (r : Reading) (line : Nat) (texts : List (List Char)) :
    (r.readLines line texts).verdict [] =
      r.verdict (marksOf (Text.statementsFrom line texts)) := by
  induction texts generalizing r line with
  | nil => rfl
  | cons text rest ih =>
    rw [readLines, ih, verdict_readLine, Text.statementsFrom_cons line text rest,
      Brackets.marksOf_append]

theorem nesting_unclosed (blocks : List PendingBlock) :
    ParseError.nesting (blocks.map fun b => ⟨b.line, .unclosed b.kind b.line⟩) =
      blocks.map fun b => (.openBlock, b.line) := by
  have hnesting (b : PendingBlock) : (ParseCause.unclosed b.kind b.line).OfNesting := .inr rfl
  induction blocks with
  | nil => rfl
  | cons b blocks ih =>
    simp only [ParseError.nesting, List.map_cons, List.filter_cons, hnesting, decide_true,
      if_true] at ih ⊢
    rw [ih]
    rfl

theorem complaints_finish (r : Reading) : r.finish.complaints = r.verdict [] := by
  have herrors : r.finish.errors.toList =
      r.errors.toList ++ r.blocks.map fun b => ⟨b.line, .unclosed b.kind b.line⟩ := by
    simp [finish]
  rw [complaints, herrors, ParseError.nesting_append, nesting_unclosed]
  simp [verdict, complaints, frames, check, Function.comp_def]

end Reading

theorem Script.errors_eq (source : String) :
    Script.errors source = (Reading.ofSource source).errors.toList := by
  rw [Script.errors, Script.compile, Reading.result]
  cases hempty : (Reading.ofSource source).errors.isEmpty with
  | true => simp [Array.isEmpty_iff.1 hempty]
  | false => simp

/-- The errors of a source that have to do with the nesting of blocks are what the plain
checker says of its block keywords. There are none exactly when these are balanced. -/
theorem Script.nesting_errors_eq_check (source : String) :
    ParseError.nesting (Script.errors source) = check [] (marksOf (Script.statements source)) ∧
      (ParseError.nesting (Script.errors source) = [] ↔
        Brackets.Balanced (marksOf (Script.statements source))) := by
  have heq : ParseError.nesting (Script.errors source) =
      check [] (marksOf (Script.statements source)) := by
    rw [Script.errors_eq]
    calc (Reading.ofSource source).complaints
      _ = (Reading.readLines {} 1 (Text.lines source.toList)).verdict [] :=
        Reading.complaints_finish _
      _ = Reading.verdict {} (marksOf (Script.statements source)) :=
        Reading.verdict_readLines {} 1 _
      _ = check [] (marksOf (Script.statements source)) := rfl
  exact ⟨heq, by rw [heq, Brackets.check_eq_nil_iff]⟩

end PatternScript
