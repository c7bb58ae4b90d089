import PatternScript.Proofs.Blocks.Complaints
import PatternScript.Proofs.Reading.Declarations

/-!
# Rejected lines

A reading never looks at the errors and warnings that it holds, so what stands before them is
carried along. A line that is refused adds one error and leaves all else as it was, unless it
opens a block or gives a variable. So the reading goes on as if the line were blank, and all that
is missing then is its error.
-/
namespace PatternScript

open Text (isBlank)

namespace Reading

variable {errors : Array ParseError} {warnings : Array ParseWarning}

def after (errors : Array ParseError) (warnings : Array ParseWarning) (r : Reading) : Reading :=
  { r with errors := errors ++ r.errors, warnings := warnings ++ r.warnings }

section After

variable (errors warnings) (r : Reading) (line : Nat) (args : List Char)

@[simp] theorem declared_after : (r.after errors warnings).declared = r.declared := rfl

@[simp] theorem blocks_after : (r.after errors warnings).blocks = r.blocks := rfl

@[simp] theorem patterns_after : (r.after errors warnings).patterns = r.patterns := rfl

@[simp] theorem push_after (c : Command) :
    (r.after errors warnings).push c = (r.push c).after errors warnings := by
  obtain ⟨commands, blocks⟩ := r
  cases blocks <;> rfl

@[simp] theorem refuse_after (cause : ParseCause) :
    (r.after errors warnings).refuse line cause = (r.refuse line cause).after errors warnings := by
  simp [refuse, after]

@[simp] theorem warn_after (remarks : List ParseRemark) :
    (r.after errors warnings).warn line remarks = (r.warn line remarks).after errors warnings := by
  have happend : warnings ++ r.warnings ++ remarks.map (ParseWarning.mk line) =
      warnings ++ (r.warnings ++ remarks.map (ParseWarning.mk line)) := by
    rw [← Array.toList_inj]
    simp
  rw [warn, warn, after, after, ← happend]

@[simp] theorem ignoring_after (keyword : String) :
    (r.after errors warnings).ignoring line keyword args =
      (r.ignoring line keyword args).after errors warnings := by
  simp only [ignoring, warn_after]
  split <;> rfl

theorem orRefuse_after {α : Type} {read : Except ParseCause α} {go go' : α → Reading}
    (h : ∀ a, go' a = (go a).after errors warnings) :
    (r.after errors warnings).orRefuse line read go' =
      (r.orRefuse line read go).after errors warnings := by
  cases read with
  | error cause => exact refuse_after errors warnings r line cause
  | ok a => exact h a

theorem openLoop_after : (r.after errors warnings).openLoop line args =
    (r.openLoop line args).after errors warnings := by
  simp only [openLoop, declared_after, refuse_after]
  cases Declaration.readCount r.declared args <;> rfl

theorem openChoice_after : (r.after errors warnings).openChoice line args =
    (r.openChoice line args).after errors warnings := by
  simp only [openChoice, declared_after, refuse_after]
  cases Declaration.readCondition r.declared args <;> rfl

theorem turnToElse_after : (r.after errors warnings).turnToElse line =
    (r.turnToElse line).after errors warnings := by
  simp only [turnToElse, blocks_after, refuse_after]
  split <;> rfl

theorem close_after (kind : BlockKind) : (r.after errors warnings).close line kind =
    (r.close line kind).after errors warnings := by
  simp only [close, blocks_after, refuse_after]
  split
  next b outer hblocks =>
    split
    · exact push_after errors warnings { r with blocks := outer } b.close
    · rfl
  next => rfl

theorem declare_after : (r.after errors warnings).declare line args =
    (r.declare line args).after errors warnings := by
  refine orRefuse_after errors warnings r line fun found => ?_
  let r' := { r with declared := r.declared ++ [found.1] }
  exact orRefuse_after errors warnings r' line fun tokens => push_after errors warnings r' _

theorem define_after : (r.after errors warnings).define line args =
    (r.define line args).after errors warnings := by
  simp only [define, patterns_after, warn_after]
  exact orRefuse_after errors warnings _ line fun patterns => rfl

theorem pushWith_after (make : Arguments → Action) :
    (r.after errors warnings).pushWith line args make =
      (r.pushWith line args make).after errors warnings :=
  orRefuse_after errors warnings r line fun _ => push_after ..

theorem readCommand_after (keyword : String) :
    (r.after errors warnings).readCommand line keyword args =
      (r.readCommand line keyword args).after errors warnings := by
  unfold readCommand
  split
  · exact define_after ..
  · exact openLoop_after ..
  · exact openChoice_after ..
  · rw [ignoring_after, turnToElse_after]
  · rw [ignoring_after, close_after]
  · rw [ignoring_after, close_after]
  · exact declare_after ..
  · exact orRefuse_after errors warnings r line fun _ => push_after ..
  · exact pushWith_after ..
  · exact pushWith_after ..
  · exact pushWith_after ..
  · exact pushWith_after ..
  · exact pushWith_after ..
  · rw [ignoring_after, push_after]
  · split
    · exact pushWith_after ..
    · exact refuse_after ..

theorem readLine_after (text : List Char) : (r.after errors warnings).readLine line text =
    (r.readLine line text).after errors warnings := by
  rw [readLine_eq, readLine_eq]
  cases Text.statement? text with
  | none => rfl
  | some s => exact readCommand_after ..

theorem readLines_after (texts : List (List Char)) :
    (r.after errors warnings).readLines line texts =
      (r.readLines line texts).after errors warnings := by
  induction texts generalizing r line with
  | nil => rfl
  | cons text rest ih => rw [readLines, readLines, readLine_after, ih]

end After

section Outcomes

variable {r r' : Reading} {line : Nat} {keyword : String} {args : List Char}

theorem turnToElse_accepts_or_refuses (r : Reading) (line : Nat) :
    (r.turnToElse line).errors = r.errors ∨ ∃ cause, r.turnToElse line = r.refuse line cause := by
  rw [turnToElse]
  split
  · exact .inl rfl
  · exact .inr ⟨_, rfl⟩
  · exact .inr ⟨_, rfl⟩
  · exact .inr ⟨_, rfl⟩

theorem close_accepts_or_refuses (r : Reading) (line : Nat) (kind : BlockKind) :
    (r.close line kind).errors = r.errors ∨ ∃ cause, r.close line kind = r.refuse line cause := by
  rw [close]
  split
  · split
    · exact .inl (errors_push _ _)
    · exact .inr ⟨_, rfl⟩
  · exact .inr ⟨_, rfl⟩

theorem errors_of_outcome (h : Outcome r line keyword args r') :
    r'.errors = r.errors ∨ ∃ cause, r'.errors = r.errors.push ⟨line, cause⟩ := by
  cases h with
  | defines | opensLoop | opensChoice => exact .inl rfl
  | acts => exact .inl (errors_push _ _)
  | refuses | declares | opensFaultyLoop | opensFaultyChoice => exact .inr ⟨_, rfl⟩
  | @turns warnings =>
    rcases turnToElse_accepts_or_refuses { r with warnings } line with heq | ⟨cause, heq⟩
    · exact .inl heq
    · exact .inr ⟨cause, by rw [heq]; rfl⟩
  | @closes warnings kind =>
    rcases close_accepts_or_refuses { r with warnings } line kind with heq | ⟨cause, heq⟩
    · exact .inl heq
    · exact .inr ⟨cause, by rw [heq]; rfl⟩

theorem refused_of_outcome (h : Outcome r line keyword args r') (herrors : r'.errors ≠ r.errors)
    (hloop : keyword ≠ "REPEAT") (hchoice : keyword ≠ "IF")
    (hdeclared : r'.declared = r.declared) :
    ∃ warnings cause, r' = { r with warnings }.refuse line cause := by
  cases h with
  | defines => exact absurd rfl herrors
  | acts => exact absurd (errors_push _ _) herrors
  | opensLoop heq | opensFaultyLoop heq => exact absurd heq hloop
  | opensChoice heq | opensFaultyChoice heq => exact absurd heq hchoice
  | refuses => exact ⟨_, _, rfl⟩
  | declares => simp [refuse] at hdeclared
  | @turns warnings =>
    rcases turnToElse_accepts_or_refuses { r with warnings } line with heq | ⟨cause, heq⟩
    · exact absurd heq herrors
    · exact ⟨warnings, cause, heq⟩
  | @closes warnings kind =>
    rcases close_accepts_or_refuses { r with warnings } line kind with heq | ⟨cause, heq⟩
    · exact absurd heq herrors
    · exact ⟨warnings, cause, heq⟩

def openHeaders (r : Reading) : List (Nat × String) := r.blocks.map fun b => (b.line, b.kind.keyword)

theorem openHeaders_push (r : Reading) (c : Command) : (r.push c).openHeaders = r.openHeaders := by
  have hhead (b : PendingBlock) : (b.push c).line = b.line ∧ (b.push c).kind = b.kind := by
    cases b with
    | loop => exact ⟨rfl, rfl⟩
    | choice line condition yes no => cases no <;> exact ⟨rfl, rfl⟩
  unfold push openHeaders
  cases r.blocks with
  | nil => rfl
  | cons b outer => simp [hhead]

theorem openHeaders_turnToElse (r : Reading) (line : Nat) :
    (r.turnToElse line).openHeaders = r.openHeaders := by
  rw [turnToElse]
  split
  next hblocks => simp [openHeaders, hblocks, PendingBlock.line, PendingBlock.kind]
  all_goals rfl

theorem openHeaders_close_subset (r : Reading) (line : Nat) (kind : BlockKind) :
    (r.close line kind).openHeaders ⊆ r.openHeaders := by
  rw [close]
  split
  next b outer hblocks =>
    split
    · rw [openHeaders_push]
      simp [openHeaders, hblocks]
    · exact List.Subset.refl _
  next => exact List.Subset.refl _

theorem openHeaders_of_outcome (h : Outcome r line keyword args r') :
    r'.openHeaders ⊆ (line, keyword) :: r.openHeaders := by
  cases h with
  | defines | refuses | declares => exact List.subset_cons_self _ _
  | opensLoop heq | opensFaultyLoop heq | opensChoice heq | opensFaultyChoice heq =>
    subst heq
    exact List.Subset.refl _
  | acts =>
    rw [openHeaders_push]
    exact List.subset_cons_self _ _
  | turns =>
    rw [openHeaders_turnToElse]
    exact List.subset_cons_self _ _
  | closes kind =>
    exact List.subset_cons_of_subset _ (openHeaders_close_subset _ line kind)

end Outcomes

section Lines

variable {r : Reading} {line first : Nat} {texts : List (List Char)}

theorem errors_readLine (r : Reading) (line : Nat) (text : List Char) :
    (r.readLine line text).errors = r.errors ∨
      ∃ cause, (r.readLine line text).errors = r.errors.push ⟨line, cause⟩ := by
  rw [readLine_eq]
  cases Text.statement? text with
  | none => exact .inl rfl
  | some s => exact errors_of_outcome (outcome_readCommand r line s.1 s.2)

/-- The errors are those of lines from `first` up to `next`, in order and one for a line at most. -/
structure Orderly (first next : Nat) (r : Reading) : Prop where
  increasing : (r.errors.toList.map (·.line)).Pairwise (· < ·)
  within : ∀ e ∈ r.errors.toList, first ≤ e.line ∧ e.line < next

theorem orderly_of_no_errors (h : r.errors = #[]) (first : Nat) : r.Orderly first first :=
  ⟨by simp [h], by simp [h]⟩

theorem Orderly.readLine (h : r.Orderly first line) (hfirst : first ≤ line) (text : List Char) :
    (r.readLine line text).Orderly first (line + 1) := by
  have hwithin : ∀ e ∈ r.errors.toList, first ≤ e.line ∧ e.line < line + 1 := fun e he =>
    ⟨(h.within e he).1, Nat.lt_succ_of_lt (h.within e he).2⟩
  rcases r.errors_readLine line text with heq | ⟨cause, heq⟩
  · exact ⟨heq ▸ h.increasing, heq ▸ hwithin⟩
  · refine ⟨?_, ?_⟩
    · rw [heq, Array.toList_push, List.map_append, List.pairwise_append]
      refine ⟨h.increasing, List.pairwise_singleton _ _, ?_⟩
      simpa using fun e he => (h.within e (Array.mem_toList_iff.2 he)).2
    · rw [heq, Array.toList_push]
      intro e he
      rcases List.mem_append.1 he with he | he
      · exact hwithin e he
      · rw [List.mem_singleton.1 he]
        exact ⟨hfirst, Nat.lt_succ_self line⟩

theorem Orderly.readLines (h : r.Orderly first line) (hfirst : first ≤ line) :
    (r.readLines line texts).Orderly first (line + texts.length) := by
  induction texts generalizing r line with
  | nil => exact h
  | cons text rest ih =>
    rw [List.length_cons, Nat.add_comm rest.length, ← Nat.add_assoc]
    exact ih (h.readLine hfirst text) (Nat.le_succ_of_le hfirst)

theorem openHeaders_readLines (r : Reading) (line : Nat) (texts : List (List Char)) :
    (r.readLines line texts).openHeaders ⊆ r.openHeaders ++ Text.statementsFrom line texts := by
  induction texts generalizing r line with
  | nil => exact List.subset_append_left _ _
  | cons text rest ih =>
    have hline : (r.readLine line text).openHeaders ⊆
        r.openHeaders ++ Text.statementsFrom line [text] := by
      rw [readLine_eq, Text.statementsFrom, Text.statementsFrom, List.append_nil]
      cases Text.statement? text with
      | none => exact List.subset_append_left _ _
      | some s =>
        refine List.Subset.trans (openHeaders_of_outcome (outcome_readCommand r line s.1 s.2)) ?_
        simp
    rw [Text.statementsFrom_cons, ← List.append_assoc]
    intro header hheader
    rcases List.mem_append.1 (ih _ _ hheader) with hopen | hlater
    · exact List.mem_append_left _ (hline hopen)
    · exact List.mem_append_right _ hlater

end Lines

theorem readLines_recorded (r : Reading) (line : Nat) (texts : List (List Char))
    (errors : Array ParseError) (warnings : Array ParseWarning) :
    ({ r with errors, warnings }.readLines line texts).script =
        ({ r with errors := #[], warnings := #[] }.readLines line texts).script ∧
      ({ r with errors, warnings }.readLines line texts).blocks =
        ({ r with errors := #[], warnings := #[] }.readLines line texts).blocks ∧
      ({ r with errors, warnings }.readLines line texts).errors =
        errors ++ ({ r with errors := #[], warnings := #[] }.readLines line texts).errors := by
  have hafter : { r with errors, warnings } =
      ({ r with errors := #[], warnings := #[] } : Reading).after errors warnings := by
    simp [after]
  rw [hafter, readLines_after]
  exact ⟨rfl, rfl, rfl⟩

theorem Orderly.mem_readLines_iff {r : Reading} {line first : Nat} {e : ParseError}
    (h : r.Orderly first line) (he : e.line = line) (text : List Char)
    (rest : List (List Char)) :
    e ∈ ((r.readLine line text).readLines (line + 1) rest).errors.toList ↔
      (r.readLine line text).errors = r.errors.push e := by
  have hbefore : e ∉ r.errors.toList := fun hmem =>
    absurd (h.within e hmem).2 (by omega)
  have hafter : e ∉ ({ r.readLine line text with errors := #[], warnings := #[] }.readLines
      (line + 1) rest).errors.toList := fun hmem =>
    absurd (((orderly_of_no_errors rfl (line + 1)).readLines le_rfl).within e hmem).1 (by omega)
  have hall : ((r.readLine line text).readLines (line + 1) rest).errors = _ :=
    (readLines_recorded (r.readLine line text) (line + 1) rest (r.readLine line text).errors
      (r.readLine line text).warnings).2.2
  rw [hall, Array.toList_append, List.mem_append, or_iff_left hafter]
  constructor
  · intro hmem
    rcases r.errors_readLine line text with heq | ⟨cause, heq⟩
    · exact absurd (heq ▸ hmem) hbefore
    · rw [heq, Array.toList_push, List.mem_append, or_iff_right hbefore, List.mem_singleton] at hmem
      rw [heq, hmem]
  · intro heq
    rw [heq, Array.toList_push]
    exact List.mem_append_right _ (List.mem_singleton_self e)

theorem Orderly.filter_ne {line : Nat} {r : Reading} {first next : Nat} (h : r.Orderly first next)
    (hout : line < first ∨ next ≤ line) :
    r.errors.toList.filter (·.line != line) = r.errors.toList := by
  refine List.filter_eq_self.2 fun e he => bne_iff_ne.2 ?_
  have hwithin := h.within e he
  omega

theorem readLines_refused {r : Reading} {line first : Nat} (h : r.Orderly first line)
    (warnings : Array ParseWarning) (cause : ParseCause) (rest : List (List Char)) :
    let refused := ({ r with warnings }.refuse line cause).readLines (line + 1) rest
    let skipped := r.readLines (line + 1) rest
    skipped.script = refused.script ∧ skipped.blocks = refused.blocks ∧
      skipped.errors.toList = refused.errors.toList.filter (·.line != line) := by
  obtain ⟨hscript, hblocks, herrors⟩ := readLines_recorded r (line + 1) rest r.errors r.warnings
  obtain ⟨hscript', hblocks', herrors'⟩ :=
    readLines_recorded r (line + 1) rest (r.errors.push ⟨line, cause⟩) warnings
  have hlater : ({ r with errors := #[], warnings := #[] }.readLines (line + 1) rest).Orderly
      (line + 1) (line + 1 + rest.length) := (orderly_of_no_errors rfl _).readLines le_rfl
  refine ⟨hscript.trans hscript'.symm, hblocks.trans hblocks'.symm, ?_⟩
  refine (congrArg Array.toList herrors).trans ?_
  refine Eq.trans ?_ (congrArg (·.toList.filter (·.line != line)) herrors').symm
  rw [Array.toList_append, Array.toList_append, List.filter_append, Array.toList_push,
    List.filter_append, h.filter_ne (.inr le_rfl), hlater.filter_ne (.inl (Nat.lt_succ_self line))]
  simp

end Reading

namespace Text

theorem linesFrom_last {read cs : List Char} (h : '\n' ∉ cs) :
    linesFrom read cs = [read.reverse ++ cs] := by
  induction cs generalizing read with
  | nil => simp [linesFrom]
  | cons c cs ih =>
    obtain ⟨hc, hcs⟩ := not_or.1 (mt List.mem_cons.2 h)
    rw [linesFrom, if_neg (Ne.symm hc), ih hcs]
    simp

theorem lines_intercalate {texts : List (List Char)} (hne : texts ≠ [])
    (h : ∀ text ∈ texts, '\n' ∉ text) : lines (['\n'].intercalate texts) = texts := by
  induction texts with
  | nil => exact absurd rfl hne
  | cons text rest ih =>
    obtain ⟨htext, hrest⟩ := List.forall_mem_cons.1 h
    cases rest with
    | nil => simp [lines, linesFrom_last htext]
    | cons next rest =>
      rw [List.intercalate_cons_cons, List.append_assoc, List.singleton_append, lines,
        linesFrom_append htext, ← lines, ih (List.cons_ne_nil _ _) hrest]
      rfl

theorem statement?_of_blank {text : List Char} (h : ∀ c ∈ text, isBlank c = true) :
    statement? text = none := by
  have hskip := dropWhile_append_of_ends h (ends_nil isBlank)
  rw [List.append_nil] at hskip
  rw [statement?, trim, trimStart, hskip]
  rfl

theorem lines_ne_nil (cs : List Char) : lines cs ≠ [] := by
  have hne (read : List Char) : linesFrom read cs ≠ [] := by
    induction cs generalizing read with
    | nil => exact List.cons_ne_nil _ _
    | cons c cs ih =>
      rw [linesFrom]
      split
      · exact List.cons_ne_nil _ _
      · exact ih _
  exact hne []

theorem mem_statementsFrom {before rest : List (List Char)} {text : List Char}
    {s : String × List Char} (h : statement? text = some s) (line : Nat) :
    (line + before.length, s.1) ∈ statementsFrom line (before ++ text :: rest) := by
  induction before generalizing line with
  | nil => simp [statementsFrom, h]
  | cons _ before ih =>
    rw [List.length_cons, Nat.add_comm before.length, ← Nat.add_assoc]
    exact List.mem_append_right _ (ih (line + 1))

theorem givenFrom_append (line : Nat) (before rest : List (List Char)) :
    givenFrom line (before ++ rest) =
      givenFrom line before ++ givenFrom (line + before.length) rest := by
  induction before generalizing line with
  | nil => rfl
  | cons text before ih =>
    rw [List.cons_append, givenFrom, ih, givenFrom, List.append_assoc, List.length_cons,
      Nat.add_comm before.length, ← Nat.add_assoc]

end Text

namespace Script

/-- The errors that the lines of a source are refused for, without those about blocks that are
still open at its end. -/
def lineErrors (source : String) : List ParseError :=
  (Reading.readLines {} 1 (Text.lines source.toList)).errors.toList

/-- The source with another text on one of its lines, which are counted from one. -/
def withLine (source : String) (line : Nat) (text : List Char) : String :=
  String.ofList (['\n'].intercalate ((Text.lines source.toList).set (line - 1) text))

theorem lines_withLine (source : String) (line : Nat) {text : List Char} (h : '\n' ∉ text) :
    Text.lines (withLine source line text).toList =
      (Text.lines source.toList).set (line - 1) text := by
  rw [withLine, String.toList_ofList]
  refine Text.lines_intercalate ?_ fun text' htext' => ?_
  · simpa using Text.lines_ne_nil source.toList
  · rcases List.mem_or_eq_of_mem_set htext' with hkept | rfl
    · exact Text.no_feed_of_mem_lines _ _ hkept
    · exact h

theorem script_finish (r : Reading) : r.finish.script = r.script := rfl

theorem errors_ofSource (source : String) :
    (Reading.ofSource source).errors.toList = lineErrors source ++
      (Reading.readLines {} 1 (Text.lines source.toList)).blocks.map
        fun b => ⟨b.line, .unclosed b.kind b.line⟩ := by
  simp [Reading.ofSource, Reading.finish, lineErrors]

theorem declared_of_given {source : String} {line : Nat} {before rest : List (List Char)}
    {text : List Char} (hlines : Text.lines source.toList = before ++ text :: rest)
    (hline : 1 + before.length = line)
    (hgiven : ∀ name, (line, name) ∈ given source → name ∈ namesBefore (given source) line) :
    ((Reading.readLines {} 1 before).readLine line text).declared =
      (Reading.readLines {} 1 before).declared := by
  have htidy := Reading.tidy_readLines (Reading.tidy_empty (Text.givenFrom 1 before)) rfl
  have hall : given source = Text.givenFrom 1 before ++ Text.givenFrom line (text :: rest) := by
    rw [given, hlines, Text.givenFrom_append, hline]
  have hbefore : namesBefore (given source) line = (Text.givenFrom 1 before).map (·.2) := by
    rw [hall]
    exact Reading.namesBefore_split (fun g hg => hline ▸ htidy.earlier g hg)
      fun g => Reading.le_of_mem_givenFrom
  rw [Reading.declared_readLine]
  cases hname : Text.given? text with
  | none => rfl
  | some name =>
    have hmem : name ∈ namesBefore (given source) line :=
      hgiven name (hall ▸ List.mem_append_right _ (by simp [Text.givenFrom, hname]))
    rw [hbefore, ← List.mem_eraseDups, ← htidy.declared_eq] at hmem
    exact if_pos hmem

theorem header_of_open {source : String} {b : PendingBlock}
    (h : b ∈ (Reading.readLines {} 1 (Text.lines source.toList)).blocks) :
    (b.line, b.kind.keyword) ∈ statements source :=
  Reading.openHeaders_readLines {} 1 _ (List.mem_map_of_mem h)

theorem orderly_readLines (texts : List (List Char)) :
    (Reading.readLines {} 1 texts).Orderly 1 (1 + texts.length) :=
  (Reading.orderly_of_no_errors rfl 1).readLines le_rfl

theorem exists_lines_around {source : String} {e : ParseError} (he : e ∈ lineErrors source)
    {blank : List Char} (hblank : '\n' ∉ blank) : ∃ before text rest,
      Text.lines source.toList = before ++ text :: rest ∧
      Text.lines (withLine source e.line blank).toList = before ++ blank :: rest ∧
      1 + before.length = e.line := by
  have hbounds := (orderly_readLines (Text.lines source.toList)).within e he
  have hlt : e.line - 1 < (Text.lines source.toList).length := by omega
  obtain ⟨before, rest, hlines, hbefore, hset⟩ := List.exists_of_set hlt
  refine ⟨before, _, rest, hlines, ?_, by omega⟩
  rw [lines_withLine source e.line hblank, hset]

theorem readLines_around {before rest : List (List Char)} {line : Nat} (text : List Char)
    (hbefore : 1 + before.length = line) : Reading.readLines {} 1 (before ++ text :: rest) =
      ((Reading.readLines {} 1 before).readLine line text).readLines (line + 1) rest := by
  rw [Reading.readLines_append, hbefore, Reading.readLines]

theorem refused_of_error {source : String} {e : ParseError} {before rest : List (List Char)}
    {text : List Char} (he : e ∈ lineErrors source)
    (hlines : Text.lines source.toList = before ++ text :: rest)
    (hbefore : 1 + before.length = e.line) (hloop : (e.line, "REPEAT") ∉ statements source)
    (hchoice : (e.line, "IF") ∉ statements source)
    (hgiven : ∀ name, (e.line, name) ∈ given source → name ∈ namesBefore (given source) e.line) :
    ∃ warnings cause, (Reading.readLines {} 1 before).readLine e.line text =
      { Reading.readLines {} 1 before with warnings }.refuse e.line cause := by
  have hdeclared := declared_of_given hlines hbefore hgiven
  have hr : (Reading.readLines {} 1 before).Orderly 1 e.line := hbefore ▸ orderly_readLines before
  rw [lineErrors, hlines, readLines_around text hbefore, hr.mem_readLines_iff rfl] at he
  generalize Reading.readLines {} 1 before = r at *
  rw [Reading.readLine_eq] at he hdeclared ⊢
  cases hsaid : Text.statement? text with
  | none => simp [hsaid] at he
  | some s =>
    rw [hsaid] at he hdeclared
    have hmem : (e.line, s.1) ∈ statements source := by
      rw [statements, hlines, ← hbefore]
      exact Text.mem_statementsFrom hsaid 1
    refine Reading.refused_of_outcome (Reading.outcome_readCommand r e.line s.1 s.2) ?_
      (fun hkeyword => hloop (hkeyword ▸ hmem)) (fun hkeyword => hchoice (hkeyword ▸ hmem))
      hdeclared
    exact fun hsame => by simpa using he.symm.trans hsame

theorem filter_unclosed {source : String} {line : Nat} (hloop : (line, "REPEAT") ∉ statements source)
    (hchoice : (line, "IF") ∉ statements source) :
    ((Reading.readLines {} 1 (Text.lines source.toList)).blocks.map fun b =>
        (⟨b.line, .unclosed b.kind b.line⟩ : ParseError)).filter (·.line != line) =
      (Reading.readLines {} 1 (Text.lines source.toList)).blocks.map
        fun b => ⟨b.line, .unclosed b.kind b.line⟩ := by
  refine List.filter_eq_self.2 fun e he => bne_iff_ne.2 fun hat => ?_
  obtain ⟨b, hb, rfl⟩ := List.mem_map.1 he
  have hheader := header_of_open hb
  cases b with
  | loop => exact hloop (hat ▸ hheader)
  | choice => exact hchoice (hat ▸ hheader)

/-- A source records at most one error for each of its lines, in their order. If a line has one,
opens no block and gives no variable that was not given before, then with a blank line in its
place the source has the same commands, patterns and variables, and all other errors as before. -/
theorem rejected_line_leaves_no_trace (source : String) :
    ((lineErrors source).map (·.line)).Pairwise (· < ·) ∧
    ∀ (line : Nat) (blank : List Char),
      (∃ e ∈ lineErrors source, e.line = line) →
      (line, "REPEAT") ∉ statements source → (line, "IF") ∉ statements source →
      (∀ name, (line, name) ∈ given source → name ∈ namesBefore (given source) line) →
      (∀ c ∈ blank, isBlank c = true ∧ c ≠ '\n') →
        (Reading.ofSource (withLine source line blank)).script = (Reading.ofSource source).script ∧
        (Reading.ofSource (withLine source line blank)).errors.toList =
          (Reading.ofSource source).errors.toList.filter (·.line != line) := by
  refine ⟨(orderly_readLines _).increasing, ?_⟩
  rintro line blank ⟨e, he, rfl⟩ hloop hchoice hgiven hblank
  obtain ⟨before, text, rest, hlines, hset, hbefore⟩ :=
    exists_lines_around he fun hfeed => (hblank _ hfeed).2 rfl
  obtain ⟨warnings, cause, hrefused⟩ := refused_of_error he hlines hbefore hloop hchoice hgiven
  obtain ⟨hscript, hblocks, herrors⟩ :=
    Reading.readLines_refused (hbefore ▸ orderly_readLines before) warnings cause rest
  rw [← hrefused, ← readLines_around text hbefore, ← hlines] at hscript hblocks herrors
  have hskipped : Reading.readLines {} 1 (Text.lines (withLine source e.line blank).toList) =
      (Reading.readLines {} 1 before).readLines (e.line + 1) rest := by
    rw [hset, readLines_around blank hbefore, Reading.readLine_eq,
      Text.statement?_of_blank fun c hc => (hblank c hc).1]
  constructor
  · rw [Reading.ofSource, Reading.ofSource, script_finish, script_finish, hskipped, hscript]
  · rw [errors_ofSource, errors_ofSource, lineErrors, hskipped, hblocks, herrors,
      List.filter_append, ← lineErrors, filter_unclosed hloop hchoice]

theorem rejected_line_leaves_no_trace_of_wrong_end :
    let source := "REPEAT COUNT=2\nVAR $n\nENDIF\nVAR $n\nPIXEL X=$n Y=0"
    (lineErrors source).map (·.line) = [3, 4] ∧
      (Reading.ofSource source).errors.toList.map (·.line) = [3, 4, 1] ∧
      (Reading.ofSource (withLine source 4 [' '])).script = (Reading.ofSource source).script ∧
      (Reading.ofSource (withLine source 4 [' '])).errors.toList =
        (Reading.ofSource source).errors.toList.filter (·.line != 4) := by
  intro source
  have hgiven : given source = [(2, "$N"), (4, "$N")] := by decide +kernel
  refine ⟨by decide +kernel, by decide +kernel, ?_⟩
  refine (rejected_line_leaves_no_trace source).2 4 [' '] (by decide +kernel) (by decide +kernel)
    (by decide +kernel) ?_ (List.forall_mem_singleton.2 (by decide))
  rw [hgiven]
  intro name hname
  simpa [namesBefore] using hname

end Script

end PatternScript
