import PatternScript.Proofs.Blocks.Brackets
import PatternScript.Proofs.Reading.Readers
import PatternScript.Proofs.Reading.Refusals

/-!
# What a line does to a reading

A line says nothing, or it has a keyword and something after it. Whatever stands there, what
it does to the reading is one of a few things: it leaves a pattern, is refused, adds an
action, or opens, turns or closes a block. `Outcome` lists them, faulty headers and faulty
initial values included, and `outcome_readCommand` is the only place where the keywords are
gone through.
-/
namespace PatternScript

def Action.ReadFrom (declared : List String) (args : List Char) : Action → Prop
  | declare name init => Declaration.readVar declared args = .ok (name, .ok init)
  | assign name value => Declaration.readLet declared args = .ok (.assign name value)
  | resetTransforms => True
  | color a | fill a | translate a | rotate a | scale a | draw _ a =>
    Arguments.parseDeclared declared args = .ok a

def Command.ReadFrom (declared : List String) (args : List Char) : Command → Prop
  | act _ a => a.ReadFrom declared args
  | loop _ count _ => Declaration.readCount declared args = .ok count
  | choice _ condition _ _ => Declaration.readCondition declared args = .ok condition

/-- Whether the header of a command can be read from a line's text, when some variables are
declared. -/
def Command.Legible (declared : List String) (c : Command) : Prop :=
  ∃ args : List Char, '\n' ∉ args ∧ c.ReadFrom declared args

theorem Shape.name_of_ofName? {name : String} {shape : Shape} (h : ofName? name = some shape) :
    shape.name = name := by
  simpa using List.find?_some h

theorem Action.mark_keyword (a : Action) : BlockMark.ofKeyword? a.keyword = none := by
  cases a with
  | draw shape => cases shape <;> rfl
  | _ => rfl

/-- The keyword of a line and what follows it, unless the line is blank or a remark. -/
def Text.statement? (text : List Char) : Option (String × List Char) :=
  match Text.trim text with
  | [] => none
  | '#' :: _ => none
  | trimmed => some (String.ofList (splitKeyword trimmed).1, (splitKeyword trimmed).2)

theorem Text.mem_of_trim {c : Char} {cs : List Char} (h : c ∈ trim cs) : c ∈ cs := by
  have hreverse := (List.dropWhile_sublist _).mem (List.mem_reverse.1 h)
  exact (List.dropWhile_sublist _).mem (List.mem_reverse.1 hreverse)

theorem Text.mem_of_statement? {text : List Char} {s : String × List Char} {c : Char}
    (h : statement? text = some s) (hc : c ∈ s.2) : c ∈ text := by
  rw [statement?] at h
  split at h
  next => cases h
  next => cases h
  next =>
    cases h
    exact mem_of_trim ((List.dropWhile_sublist _).mem (mem_of_trim hc))

theorem Text.no_feed_of_mem_linesFrom {read cs text : List Char} (hread : '\n' ∉ read)
    (h : text ∈ linesFrom read cs) : '\n' ∉ text := by
  induction cs generalizing read with
  | nil =>
    rw [linesFrom, List.mem_singleton] at h
    simpa [h] using hread
  | cons c cs ih =>
    rw [linesFrom] at h
    split at h
    next hc =>
      rcases List.mem_cons.1 h with rfl | h
      · simpa using hread
      · exact ih List.not_mem_nil h
    next hc => exact ih (by simp [hread, Ne.symm hc]) h

theorem Text.no_feed_of_mem_lines (cs : List Char) : ∀ text ∈ lines cs, '\n' ∉ text :=
  fun _ h => no_feed_of_mem_linesFrom List.not_mem_nil h

def Text.statementsFrom (line : Nat) : List (List Char) → List (Nat × String)
  | [] => []
  | text :: rest =>
    ((Text.statement? text).map fun s => (line, s.1)).toList ++ statementsFrom (line + 1) rest

theorem Text.statementsFrom_cons (line : Nat) (text : List Char) (rest : List (List Char)) :
    statementsFrom line (text :: rest) =
      statementsFrom line [text] ++ statementsFrom (line + 1) rest := by
  simp [statementsFrom]

def Script.statements (source : String) : List (Nat × String) :=
  Text.statementsFrom 1 (Text.lines source.toList)

namespace Reading

theorem readLine_eq (r : Reading) (line : Nat) (text : List Char) :
    r.readLine line text = match Text.statement? text with
      | none => r
      | some (keyword, args) => r.readCommand line keyword args := by
  rw [readLine, Text.statement?]
  split <;> simp_all

theorem readLines_append (r : Reading) (line : Nat) (texts texts' : List (List Char)) :
    r.readLines line (texts ++ texts') =
      (r.readLines line texts).readLines (line + texts.length) texts' := by
  induction texts generalizing r line with
  | nil => rfl
  | cons text texts ih =>
    rw [List.cons_append, readLines, ih, readLines, List.length_cons, Nat.add_right_comm,
      Nat.add_assoc]

inductive Outcome (r : Reading) (line : Nat) (keyword : String) (args : List Char) :
    Reading → Prop where
  | defines {warnings : Array ParseWarning} {patterns : PatternTable} : keyword = "DEFINE" →
      Outcome r line keyword args { r with warnings, patterns }
  | refuses {warnings : Array ParseWarning} {cause : ParseCause} :
      BlockMark.ofKeyword? keyword = none → ¬ cause.OfNesting →
      Outcome r line keyword args ({ r with warnings }.refuse line cause)
  | acts {warnings : Array ParseWarning} {a : Action} : a.keyword = keyword →
      a.ReadFrom r.declared args →
      Outcome r line keyword args
        ({ r with warnings, declared := r.declared ++ (Command.act line a).declares }.push
          (.act line a))
  | declares {name : String} {cause : ParseCause} : keyword = "VAR" → ¬ cause.OfNesting →
      Outcome r line keyword args
        ({ r with declared := r.declared ++ [name] }.refuse line cause)
  | opensLoop {count : Token} : keyword = "REPEAT" →
      Declaration.readCount r.declared args = .ok count →
      Outcome r line keyword args { r with blocks := .loop line count #[] :: r.blocks }
  | opensFaultyLoop {cause : ParseCause} : keyword = "REPEAT" → ¬ cause.OfNesting →
      Outcome r line keyword args
        { r.refuse line cause with blocks := .loop line (.int 0) #[] :: r.blocks }
  | opensChoice {condition : List Token} : keyword = "IF" →
      Declaration.readCondition r.declared args = .ok condition →
      Outcome r line keyword args
        { r with blocks := .choice line condition #[] none :: r.blocks }
  | opensFaultyChoice {cause : ParseCause} : keyword = "IF" → ¬ cause.OfNesting →
      Outcome r line keyword args
        { r.refuse line cause with blocks := .choice line [] #[] none :: r.blocks }
  | turns {warnings : Array ParseWarning} : keyword = "ELSE" →
      Outcome r line keyword args ({ r with warnings }.turnToElse line)
  | closes {warnings : Array ParseWarning} (kind : BlockKind) : keyword = kind.terminator →
      Outcome r line keyword args ({ r with warnings }.close line kind)

variable {line : Nat} {args : List Char}

theorem ignoring_eq (r : Reading) (line : Nat) (keyword : String) (args : List Char) :
    ∃ warnings, r.ignoring line keyword args = { r with warnings } := by
  rw [ignoring]
  split
  · exact ⟨r.warnings, rfl⟩
  · exact ⟨_, rfl⟩

theorem outcome_define (r : Reading) (line : Nat) (args : List Char) :
    Outcome r line "DEFINE" args (r.define line args) := by
  have hread := Definition.unnested_read r.patterns args
  rw [define]
  revert hread
  cases Definition.read r.patterns args with
  | mk remarks table =>
    intro hread
    cases table with
    | error cause => exact .refuses rfl (hread.not_ofNesting rfl)
    | ok patterns => exact .defines rfl

theorem outcome_openLoop (r : Reading) (line : Nat) (args : List Char) :
    Outcome r line "REPEAT" args (r.openLoop line args) := by
  rw [openLoop]
  cases hcount : Declaration.readCount r.declared args with
  | error cause =>
    exact .opensFaultyLoop rfl ((Declaration.unnested_readCount _ _).not_ofNesting hcount)
  | ok count => exact .opensLoop rfl hcount

theorem outcome_openChoice (r : Reading) (line : Nat) (args : List Char) :
    Outcome r line "IF" args (r.openChoice line args) := by
  rw [openChoice]
  cases hcondition : Declaration.readCondition r.declared args with
  | error cause =>
    exact .opensFaultyChoice rfl ((Declaration.unnested_readCondition _ _).not_ofNesting hcondition)
  | ok condition => exact .opensChoice rfl hcondition

theorem outcome_declare (r : Reading) (line : Nat) (args : List Char) :
    Outcome r line "VAR" args (r.declare line args) := by
  rw [declare]
  cases hvar : Declaration.readVar r.declared args with
  | error cause => exact .refuses rfl ((Declaration.unnested_readVar _ _).not_ofNesting hvar)
  | ok found =>
    obtain ⟨name, init⟩ := found
    cases init with
    | error cause => exact .declares rfl ((Declaration.unnested_initial _ _ hvar).not_ofNesting rfl)
    | ok tokens => exact .acts (a := .declare name tokens) rfl hvar

theorem outcome_push {r : Reading} {keyword : String} {warnings : Array ParseWarning}
    {a : Action} (hkeyword : a.keyword = keyword) (hread : a.ReadFrom r.declared args)
    (hdeclares : (Command.act line a).declares = []) :
    Outcome r line keyword args ({ r with warnings }.push (.act line a)) := by
  have h : Outcome r line keyword args ({ r with
      warnings, declared := r.declared ++ (Command.act line a).declares }.push (.act line a)) :=
    .acts hkeyword hread
  rwa [hdeclares, List.append_nil] at h

theorem outcome_let (r : Reading) (line : Nat) (args : List Char) :
    Outcome r line "LET" args
      (r.orRefuse line (Declaration.readLet r.declared args) fun a => r.push (.act line a)) := by
  cases hlet : Declaration.readLet r.declared args with
  | error cause => exact .refuses rfl ((Declaration.unnested_readLet _ _).not_ofNesting hlet)
  | ok a =>
    obtain ⟨name, value, rfl, -⟩ := Declaration.of_readLet hlet
    exact outcome_push (a := .assign name value) rfl hlet rfl

theorem outcome_pushWith (r : Reading) (line : Nat) (args : List Char) (keyword : String)
    (hkeyword : BlockMark.ofKeyword? keyword = none) {make : Arguments → Action}
    (hmake : ∀ a, (make a).keyword = keyword ∧ (make a).args? = some a) :
    Outcome r line keyword args (r.pushWith line args make) := by
  rw [pushWith]
  cases hargs : Arguments.parseDeclared r.declared args with
  | error cause => exact .refuses hkeyword ((Arguments.unnested_parseDeclared _ _).not_ofNesting hargs)
  | ok a =>
    refine outcome_push (hmake a).1 ?_ ?_
    · have hsome := (hmake a).2
      cases haction : make a with
      | declare | assign | resetTransforms => simp [haction, Action.args?] at hsome
      | color | fill | translate | rotate | scale | draw =>
        rw [haction] at hsome
        cases hsome
        exact hargs
    · have hsome := (hmake a).2
      cases haction : make a with
      | declare => simp [haction, Action.args?] at hsome
      | _ => rfl

theorem outcome_readCommand (r : Reading) (line : Nat) (keyword : String) (args : List Char) :
    Outcome r line keyword args (r.readCommand line keyword args) := by
  obtain ⟨warnings, hignoring⟩ := r.ignoring_eq line keyword args
  unfold readCommand
  split
  · exact outcome_define r line args
  · exact outcome_openLoop r line args
  · exact outcome_openChoice r line args
  · rw [hignoring]
    exact .turns rfl
  · rw [hignoring]
    exact .closes .choice rfl
  · rw [hignoring]
    exact .closes .loop rfl
  · exact outcome_declare r line args
  · exact outcome_let r line args
  · exact outcome_pushWith r line args _ rfl fun _ => ⟨rfl, rfl⟩
  · exact outcome_pushWith r line args _ rfl fun _ => ⟨rfl, rfl⟩
  · exact outcome_pushWith r line args _ rfl fun _ => ⟨rfl, rfl⟩
  · exact outcome_pushWith r line args _ rfl fun _ => ⟨rfl, rfl⟩
  · exact outcome_pushWith r line args _ rfl fun _ => ⟨rfl, rfl⟩
  · rw [hignoring]
    exact outcome_push (a := .resetTransforms) rfl trivial rfl
  · split
    next shape hshape =>
      have hname := Shape.name_of_ofName? hshape
      refine outcome_pushWith r line args _ ?_ fun _ => ⟨hname, rfl⟩
      rw [← hname]
      cases shape <;> rfl
    next =>
      refine .refuses ?_ (not_or.2 ⟨nofun, nofun⟩)
      unfold BlockMark.ofKeyword?
      split <;> simp_all

end Reading

end PatternScript
