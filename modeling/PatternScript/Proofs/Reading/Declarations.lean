import PatternScript.Proofs.Printing.Tokens
import PatternScript.Proofs.Reading.Growth

/-!
# Declarations before uses

Which variables a source declares is told by its `VAR` lines alone: every proper name that one
of them gives is declared from the next line on, once, whatever becomes of its initial value and
of the lines around it. What is kept of a source, be it accepted or not, uses only variables
that were declared on earlier lines, since a line is read with the names declared so far and
the headers that were kept before it stay as they were.
-/
namespace PatternScript

open Command (headers names)

/-- The variable that a `VAR` gives by what follows the keyword, if its name is a proper one. -/
def Declaration.given? : List Char → Option String
  | '$' :: rest =>
    let bare := Text.trim (rest.takeWhile (· != '='))
    if isIdentifier bare && !isEnvironmentName (fullName bare) then some (fullName bare) else none
  | _ => none

def Text.given? (text : List Char) : Option String :=
  (Text.statement? text).bind fun s => if s.1 = "VAR" then Declaration.given? s.2 else none

def Text.givenFrom (line : Nat) : List (List Char) → List (Nat × String)
  | [] => []
  | text :: rest => ((Text.given? text).map (line, ·)).toList ++ givenFrom (line + 1) rest

/-- The variables given by the `VAR` lines of a source, whether it can be read or not. -/
def Script.given (source : String) : List (Nat × String) :=
  Text.givenFrom 1 (Text.lines source.toList)

def namesBefore (given : List (Nat × String)) (line : Nat) : List String :=
  (given.filter (·.1 < line)).map (·.2)

namespace Command

def assigns : Command → List String
  | act _ (.assign name _) => [name]
  | _ => []

/-- Whether a command gets by with some variables and those of the host. -/
structure UsesOnly (declared : List String) (c : Command) : Prop where
  known : Token.AllKnown declared c.tokens
  targets : ∀ name ∈ c.assigns, name ∈ declared ∧ isEnvironmentName name = false

theorem UsesOnly.mono {declared declared' : List String} {c : Command}
    (h : c.UsesOnly declared) (hsub : ∀ name ∈ declared, name ∈ declared') :
    c.UsesOnly declared' where
  known v hv := (h.known v hv).imp_right (hsub v.name)
  targets name hname := (h.targets name hname).imp_left (hsub name)

theorem line_header (c : Command) : c.header.line = c.line := by
  cases c <;> rfl

theorem usesOnly_header {declared : List String} {c : Command} :
    c.header.UsesOnly declared ↔ c.UsesOnly declared := by
  cases c with
  | act line a => exact Iff.rfl
  | loop | choice => exact ⟨fun h => ⟨h.known, h.targets⟩, fun h => ⟨h.known, h.targets⟩⟩

theorem names_headers (cs : List Command) :
    names (headers cs) = (outlineAll 0 .top cs).flatMap (·.command.declares) := by
  rw [names, headers, List.flatMap_map]
  simp only [declares_header]

end Command

namespace Declaration

variable {declared : List String} {args : List Char} {name : String}

theorem named_of_given? (h : given? args = some name) :
    IsVariableName name ∧ isEnvironmentName name = false := by
  unfold given? at h
  split at h
  next rest =>
    dsimp only at h
    split at h
    next hproper =>
      cases h
      rw [Bool.and_eq_true, Bool.not_eq_true'] at hproper
      exact ⟨⟨_, hproper.1, rfl⟩, hproper.2⟩
    next => cases h
  next => cases h

theorem takeWhile_of_cut? (mark : Char) (cs : List Char) :
    cs.takeWhile (· != mark) = match Text.cut? mark cs with
      | some (before, _) => before
      | none => cs := by
  rw [Text.cut?]
  cases hdrop : cs.dropWhile (· != mark) with
  | nil =>
    have hsplit := List.takeWhile_append_dropWhile (p := (· != mark)) (l := cs)
    rwa [hdrop, List.append_nil] at hsplit
  | cons c rest => rfl

theorem any_isAsciiBlank_of_isIdentifier {bare : List Char} (h : isIdentifier bare = true) :
    bare.any Text.isAsciiBlank = false := by
  rw [List.any_eq_false]
  intro c hc
  rw [Text.isAsciiBlank_eq_false (isBlank_of_isNameChar (all_isNameChar_of_isIdentifier h c hc))]
  exact Bool.false_ne_true

theorem exists_checked_iff {bare : List Char} {init : Except ParseCause (List Token)} :
    (∃ read, ¬ bare.any Text.isAsciiBlank = true ∧ ¬ (!isIdentifier bare) = true ∧
      ¬ isEnvironmentName (fullName bare) = true ∧ ¬ declared.contains (fullName bare) = true ∧
        (pure (fullName bare, init) : Except ParseCause _) = .ok (name, read)) ↔
      (if isIdentifier bare && !isEnvironmentName (fullName bare) then some (fullName bare)
        else none) = some name ∧ name ∉ declared := by
  constructor
  · rintro ⟨read, -, hidentifier, henvironment, hfresh, heq⟩
    cases heq
    rw [Bool.not_eq_true] at henvironment
    simp_all
  · rintro ⟨hproper, hfresh⟩
    split at hproper
    next hchecks =>
      cases hproper
      rw [Bool.and_eq_true, Bool.not_eq_true'] at hchecks
      refine ⟨init, ?_, by simp [hchecks.1], by simp [hchecks.2], by simpa using hfresh, rfl⟩
      rw [any_isAsciiBlank_of_isIdentifier hchecks.1]
      exact Bool.false_ne_true
    next => cases hproper

theorem exists_readVar_iff :
    (∃ init, readVar declared args = .ok (name, init)) ↔
      given? args = some name ∧ name ∉ declared := by
  cases args with
  | nil => simp [readVar, given?, throw, throwThe, MonadExceptOf.throw]
  | cons c rest =>
    by_cases hc : c = '$'
    · subst hc
      have hbare := takeWhile_of_cut? '=' rest
      simp only [readVar, given?, throw_unless_eq_ok]
      cases hcut : Text.cut? '=' rest
      all_goals
        rw [hcut] at hbare
        simp only [hbare]
        exact exists_checked_iff
    · simp [readVar, given?, hc, throw, throwThe, MonadExceptOf.throw]

end Declaration

theorem Text.proper_of_mem_givenFrom {line : Nat} {texts : List (List Char)} {g : Nat × String}
    (h : g ∈ givenFrom line texts) :
    IsVariableName g.2 ∧ isEnvironmentName g.2 = false := by
  induction texts generalizing line with
  | nil => cases h
  | cons text rest ih =>
    rcases List.mem_append.1 h with h | h
    · obtain ⟨name, hgiven, rfl⟩ := Option.map_eq_some_iff.1 (Option.mem_toList.1 h)
      obtain ⟨s, -, hs⟩ := Option.bind_eq_some_iff.1 hgiven
      split at hs
      next => exact Declaration.named_of_given? hs
      next => cases hs
    · exact ih h

namespace Reading

variable {r r' : Reading} {line : Nat} {keyword : String} {args : List Char}

section Declared

theorem declared_declare (r : Reading) (line : Nat) (args : List Char) :
    (r.declare line args).declared = match Declaration.given? args with
      | some name => if name ∈ r.declared then r.declared else r.declared ++ [name]
      | none => r.declared := by
  rw [declare]
  cases hread : Declaration.readVar r.declared args with
  | error cause =>
    have hnone (name : String) : ¬ (Declaration.given? args = some name ∧ name ∉ r.declared) := by
      rw [← Declaration.exists_readVar_iff, hread]
      simp
    simp only [orRefuse, refuse]
    split
    next name hgiven =>
      rw [if_pos (not_not.1 fun hfresh => hnone name ⟨hgiven, hfresh⟩)]
    next => rfl
  | ok found =>
    obtain ⟨name, init⟩ := found
    obtain ⟨hgiven, hfresh⟩ := Declaration.exists_readVar_iff.1 ⟨init, hread⟩
    simp only [orRefuse, hgiven, if_neg hfresh]
    cases init with
    | error cause => rfl
    | ok tokens => exact declared_push _ _

theorem declared_of_outcome (h : Outcome r line keyword args r') (hkeyword : keyword ≠ "VAR") :
    r'.declared = r.declared := by
  cases h with
  | defines | refuses | opensLoop | opensFaultyLoop | opensChoice | opensFaultyChoice => rfl
  | @acts warnings a hsame =>
    rw [declared_push]
    cases a with
    | declare => exact absurd hsame.symm hkeyword
    | _ => exact List.append_nil _
  | declares hvar => exact absurd hvar hkeyword
  | turns => exact declared_turnToElse _ line
  | closes kind => exact declared_close _ line kind

theorem declared_readLine (r : Reading) (line : Nat) (text : List Char) :
    (r.readLine line text).declared = match Text.given? text with
      | some name => if name ∈ r.declared then r.declared else r.declared ++ [name]
      | none => r.declared := by
  rw [readLine_eq, Text.given?]
  cases Text.statement? text with
  | none => rfl
  | some s =>
    obtain ⟨keyword, args⟩ := s
    rw [Option.bind_some]
    by_cases hkeyword : keyword = "VAR"
    · subst hkeyword
      exact declared_declare r line args
    · rw [if_neg hkeyword]
      exact declared_of_outcome (outcome_readCommand r line keyword args) hkeyword

end Declared

section Tree

theorem usesOnly_of_readFrom {c : Command} {declared : List String}
    (h : c.ReadFrom declared args) : c.UsesOnly declared := by
  cases c with
  | loop line count body => exact ⟨(Declaration.of_readCount h).2, nofun⟩
  | choice line condition yes no => exact ⟨(Declaration.of_readCondition h).2, nofun⟩
  | act line a =>
    cases a with
    | declare name init => exact ⟨((Declaration.of_readVar h).2 init rfl).2, nofun⟩
    | assign name value =>
      obtain ⟨_, _, heq, -, henvironment, hdeclared, -⟩ := Declaration.parts_of_readLet h
      obtain ⟨_, _, heq', -, -, hknown⟩ := Declaration.of_readLet h
      cases heq
      cases heq'
      refine ⟨hknown, ?_⟩
      intro name hname
      cases List.mem_singleton.1 hname
      exact ⟨hdeclared, henvironment⟩
    | resetTransforms => exact ⟨nofun, nofun⟩
    | color | fill | translate | rotate | scale | draw =>
      exact ⟨(Arguments.of_parseDeclared h).2, nofun⟩

theorem headers_of_outcome (h : Outcome r line keyword args r') :
    headers r'.tree = headers r.tree ∨
      ∃ c : Command, headers r'.tree = headers r.tree ++ [c] ∧ c.line = line ∧
        c.UsesOnly r.declared := by
  cases h with
  | defines | refuses | declares => exact .inl rfl
  | turns => exact .inl (congrArg headers (tree_turnToElse _ line))
  | closes kind => exact .inl (congrArg headers (tree_close _ line kind))
  | @acts warnings a hkeyword hread =>
    refine .inr ⟨.act line a, ?_, rfl, usesOnly_of_readFrom (c := .act line a) hread⟩
    exact (congrArg headers (treeWith_push _ _ [])).trans (headers_treeWith _ _)
  | @opensLoop count hkeyword hread =>
    exact .inr ⟨.loop line count [], headers_treeWith r _, rfl,
      usesOnly_of_readFrom (c := .loop line count []) hread⟩
  | opensFaultyLoop =>
    refine .inr ⟨.loop line (.int 0) [], headers_treeWith r _, rfl, ?_, nofun⟩
    intro v hv
    cases List.mem_singleton.1 hv
  | @opensChoice condition hkeyword hread =>
    exact .inr ⟨.choice line condition [] [], headers_treeWith r _, rfl,
      usesOnly_of_readFrom (c := .choice line condition [] []) hread⟩
  | opensFaultyChoice =>
    exact .inr ⟨.choice line [] [] [], headers_treeWith r _, rfl, nofun, nofun⟩

theorem headers_readLine (r : Reading) (line : Nat) (text : List Char) :
    headers (r.readLine line text).tree = headers r.tree ∨
      ∃ c : Command, headers (r.readLine line text).tree = headers r.tree ++ [c] ∧
        c.line = line ∧ c.UsesOnly r.declared := by
  rw [readLine_eq]
  cases Text.statement? text with
  | none => exact .inl rfl
  | some s => exact headers_of_outcome (outcome_readCommand r line s.1 s.2)

end Tree

section Run

variable {all past : List (Nat × String)}

theorem le_of_mem_givenFrom {texts : List (List Char)} {g : Nat × String}
    (h : g ∈ Text.givenFrom line texts) : line ≤ g.1 := by
  induction texts generalizing line with
  | nil => cases h
  | cons text rest ih =>
    rcases List.mem_append.1 h with h | h
    · obtain ⟨name, -, rfl⟩ := Option.map_eq_some_iff.1 (Option.mem_toList.1 h)
      exact Nat.le_refl _
    · exact Nat.le_of_succ_le (ih h)

theorem namesBefore_split {later : List (Nat × String)} (hpast : ∀ g ∈ past, g.1 < line)
    (hlater : ∀ g ∈ later, line ≤ g.1) : namesBefore (past ++ later) line = past.map (·.2) := by
  have hkeep : past.filter (fun g => decide (g.1 < line)) = past :=
    List.filter_eq_self.2 fun g hg => decide_eq_true (hpast g hg)
  have hdrop : later.filter (fun g => decide (g.1 < line)) = [] :=
    List.filter_eq_nil_iff.2 fun g hg => by simpa using hlater g hg
  rw [namesBefore, List.filter_append, hkeep, hdrop, List.append_nil]

theorem eraseDups_concat (names : List String) (name : String) :
    (names ++ [name]).eraseDups =
      if name ∈ names.eraseDups then names.eraseDups else names.eraseDups ++ [name] := by
  by_cases h : name ∈ names <;> simp [List.eraseDups_append, List.eraseDups_cons, List.removeAll, h]

/-- What is known before the line `line` is read, when `past` was given on the lines before it
and `all` on those of the whole source. -/
structure Tidy (all past : List (Nat × String)) (line : Nat) (r : Reading) : Prop where
  earlier : ∀ g ∈ past, g.1 < line
  declared_eq : r.declared = (past.map (·.2)).eraseDups
  nodup : r.declared.Nodup
  uses : ∀ c ∈ headers r.tree, c.UsesOnly (namesBefore all c.line)

theorem tidy_readLine {text : List Char} {rest : List (List Char)} (h : r.Tidy all past line)
    (hall : all = past ++ Text.givenFrom line (text :: rest)) :
    (r.readLine line text).Tidy all (past ++ ((Text.given? text).map (line, ·)).toList)
      (line + 1) := by
  have hbefore : namesBefore all line = past.map (·.2) := by
    rw [hall]
    exact namesBefore_split h.earlier fun g => le_of_mem_givenFrom
  have hdeclared := r.declared_readLine line text
  refine ⟨?earlier, ?declared, ?nodup, ?uses⟩
  case earlier =>
    intro g hg
    rcases List.mem_append.1 hg with hg | hg
    · exact Nat.lt_succ_of_lt (h.earlier g hg)
    · obtain ⟨name, -, rfl⟩ := Option.map_eq_some_iff.1 (Option.mem_toList.1 hg)
      exact Nat.lt_succ_self line
  case declared =>
    rw [hdeclared, h.declared_eq]
    cases Text.given? text with
    | none => simp
    | some name => simp [eraseDups_concat]
  case nodup =>
    rw [hdeclared]
    cases Text.given? text with
    | none => exact h.nodup
    | some name =>
      dsimp only
      split
      next => exact h.nodup
      next hfresh => exact List.nodup_append.2 ⟨h.nodup, List.pairwise_singleton _ _,
        fun a ha b hb heq => hfresh (List.mem_singleton.1 hb ▸ heq ▸ ha)⟩
  case uses =>
    rcases r.headers_readLine line text with heq | ⟨c, heq, hline, huses⟩
    · rw [heq]
      exact h.uses
    · rw [heq]
      intro c' hc'
      rcases List.mem_append.1 hc' with hc' | hc'
      · exact h.uses c' hc'
      · cases List.mem_singleton.1 hc'
        rw [hline, hbefore]
        refine huses.mono ?_
        intro name hname
        rwa [h.declared_eq, List.mem_eraseDups] at hname

theorem tidy_readLines {texts : List (List Char)} (h : r.Tidy all past line)
    (hall : all = past ++ Text.givenFrom line texts) :
    (r.readLines line texts).Tidy all all (line + texts.length) := by
  induction texts generalizing r line past with
  | nil =>
    rw [Text.givenFrom, List.append_nil] at hall
    subst hall
    exact h
  | cons text rest ih =>
    rw [readLines, List.length_cons, Nat.add_comm rest.length, ← Nat.add_assoc]
    refine ih (tidy_readLine h hall) ?_
    rw [hall, Text.givenFrom, List.append_assoc]

theorem tidy_empty (all : List (Nat × String)) : ({} : Reading).Tidy all [] 1 :=
  ⟨nofun, rfl, .nil, nofun⟩

theorem closeAll_eq_append (commands : List Command) (blocks : List PendingBlock)
    (extra : List Command) :
    ∃ more, PendingBlock.closeAll commands blocks extra = commands ++ more := by
  induction blocks generalizing extra with
  | nil => exact ⟨extra, rfl⟩
  | cons b outer ih => exact ih _

theorem header_mem_of_mem_script {c : Command} {depth : Nat} {place : Place}
    (h : ⟨depth, place, c⟩ ∈ r.script.outline) : c.header ∈ headers r.tree := by
  obtain ⟨more, hmore⟩ := closeAll_eq_append r.commands.toList r.blocks []
  rw [tree, treeWith, hmore, Command.headers_append]
  exact List.mem_append_left _ (List.mem_map.2 ⟨_, h, rfl⟩)

end Run

end Reading

/-- The variables of a source, whether it can be read or not. A command kept of it uses only
those of the host and those that a `VAR` on an earlier line gives, and assigns to the latter
only. The declared variables are those given, each once; none is the host's, and each is a
dollar sign with an identifier in upper case. If the source can be read they are those that the
commands of the tree declare, in the order of the tree. -/
theorem Script.declared_before_used (source : String) :
    (∀ o ∈ (Reading.ofSource source).script.outline,
      o.command.UsesOnly (namesBefore (Script.given source) o.command.line)) ∧
    (Reading.ofSource source).declared = ((Script.given source).map (·.2)).eraseDups ∧
    (Reading.ofSource source).declared.Nodup ∧
    (∀ name ∈ (Reading.ofSource source).declared, isEnvironmentName name = false ∧
      ∃ bare, name.toList = '$' :: bare ∧ isIdentifier bare = true ∧ Text.upper bare = bare) ∧
    (∀ script, Script.compile source = .ok script →
      script.declared = script.outline.flatMap (·.command.declares)) := by
  have htidy : ((Reading.readLines {} 1 (Text.lines source.toList)).Tidy (given source)
      (given source) (1 + (Text.lines source.toList).length)) :=
    Reading.tidy_readLines (Reading.tidy_empty _) (List.nil_append _).symm
  refine ⟨?uses, htidy.declared_eq, htidy.nodup, ?proper, ?compiled⟩
  case uses =>
    intro o ho
    rw [← Command.usesOnly_header, ← o.command.line_header]
    exact htidy.uses _ (Reading.header_mem_of_mem_script ho)
  case proper =>
    intro name hname
    have hgiven := htidy.declared_eq ▸ hname
    rw [List.mem_eraseDups, List.mem_map] at hgiven
    obtain ⟨g, hg, rfl⟩ := hgiven
    obtain ⟨hvariable, henvironment⟩ := Text.proper_of_mem_givenFrom hg
    exact ⟨henvironment, hvariable.exists_chars⟩
  case compiled =>
    intro script hscript
    rw [(Script.scoped_of_compile hscript).declared_eq]
    exact Command.names_headers script.commands

theorem Script.declared_before_used_of_faulty_var :
    let source := "VAR $a = $no\nLET $a = -$A\nLET $b = 1\nVAR $b = 1\nVAR $b\n"
    given source = [(1, "$A"), (4, "$B"), (5, "$B")] ∧
      (Reading.ofSource source).errors.toList.map (·.line) = [1, 3, 5] ∧
      (Reading.ofSource source).script.outline.map (·.command.line) = [2, 4] ∧
      ∀ o ∈ (Reading.ofSource source).script.outline,
        o.command.UsesOnly (namesBefore (given source) o.command.line) :=
  ⟨by decide +kernel, by decide +kernel, by decide +kernel, (declared_before_used _).1⟩

end PatternScript
