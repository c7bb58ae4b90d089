import PatternScript.Script.ParseError

/-!
# The brackets of a script

Five keywords open, divide and close blocks. The marks that they leave on their lines form a
bracket language, and `check` is the plain checker for it: a wrong terminator or `ELSE` is one
complaint and changes nothing, and what is open at the end is a complaint each, the innermost
first. It has nothing to say exactly when the marks are balanced.
-/
namespace PatternScript

inductive BlockMark
  | opens (kind : BlockKind)
  | turns
  | closes (kind : BlockKind)
  deriving DecidableEq

def BlockMark.ofKeyword? : String → Option BlockMark
  | "REPEAT" => some (.opens .loop)
  | "IF" => some (.opens .choice)
  | "ELSE" => some .turns
  | "ENDIF" => some (.closes .choice)
  | "ENDREPEAT" => some (.closes .loop)
  | _ => none

def BlockKind.terminator : BlockKind → String
  | loop => "ENDREPEAT"
  | choice => "ENDIF"

theorem BlockMark.ofKeyword?_keyword (kind : BlockKind) :
    ofKeyword? kind.keyword = some (.opens kind) := by
  cases kind <;> rfl

theorem BlockMark.ofKeyword?_terminator (kind : BlockKind) :
    ofKeyword? kind.terminator = some (.closes kind) := by
  cases kind <;> rfl

namespace Brackets

abbrev Marks := List (Nat × BlockMark)

def marksOf (statements : List (Nat × String)) : Marks :=
  statements.filterMap fun s => (BlockMark.ofKeyword? s.2).map (s.1, ·)

theorem marksOf_append (ls ls' : List (Nat × String)) :
    marksOf (ls ++ ls') = marksOf ls ++ marksOf ls' :=
  List.filterMap_append

theorem marksOf_block (kind : BlockKind) (start stop : Nat) (inner ls : List (Nat × String)) :
    marksOf ((start, kind.keyword) :: (inner ++ (stop, kind.terminator) :: ls)) =
      (start, .opens kind) :: (marksOf inner ++ (stop, .closes kind) :: marksOf ls) := by
  simp [marksOf, BlockMark.ofKeyword?_keyword, BlockMark.ofKeyword?_terminator]

theorem marksOf_turned (start turn stop : Nat) (inner other ls : List (Nat × String)) :
    marksOf ((start, "IF") :: (inner ++ (turn, "ELSE") :: (other ++ (stop, "ENDIF") :: ls))) =
      (start, .opens .choice) :: (marksOf inner ++ (turn, .turns) ::
        (marksOf other ++ (stop, .closes .choice) :: marksOf ls)) := by
  simp [marksOf, BlockMark.ofKeyword?]

structure Frame where
  line : Nat
  kind : BlockKind
  turned : Bool

/-- The complaints about some marks within open blocks, of which the innermost comes first. -/
def check (frames : List Frame) : Marks → List (ParseCode × Nat)
  | [] => frames.map fun f => (.openBlock, f.line)
  | (line, .opens kind) :: rest => check (⟨line, kind, false⟩ :: frames) rest
  | (line, .turns) :: rest =>
    match frames with
    | ⟨start, .choice, false⟩ :: outer => check (⟨start, .choice, true⟩ :: outer) rest
    | _ => (.terminator, line) :: check frames rest
  | (line, .closes kind) :: rest =>
    match frames with
    | f :: outer =>
      if f.kind = kind then check outer rest else (.terminator, line) :: check frames rest
    | [] => (.terminator, line) :: check frames rest

inductive Balanced : Marks → Prop where
  | nil : Balanced []
  | block {kind : BlockKind} {start stop : Nat} {inside rest : Marks} :
      Balanced inside → Balanced rest →
      Balanced ((start, .opens kind) :: (inside ++ (stop, .closes kind) :: rest))
  | turned {start turn stop : Nat} {yes no rest : Marks} :
      Balanced yes → Balanced no → Balanced rest →
      Balanced ((start, .opens .choice) ::
        (yes ++ (turn, .turns) :: (no ++ (stop, .closes .choice) :: rest)))

theorem Balanced.append {ms ms' : Marks} (h : Balanced ms) (h' : Balanced ms') :
    Balanced (ms ++ ms') := by
  induction h with
  | nil => exact h'
  | block hinside hrest _ ih => simpa using hinside.block ih
  | turned hyes hno hrest _ _ ih => simpa using hyes.turned hno ih

def Fills (f : Frame) (inside : Marks) : Prop :=
  Balanced inside ∨ f.kind = .choice ∧ f.turned = false ∧
    ∃ yes turn no, inside = yes ++ (turn, .turns) :: no ∧ Balanced yes ∧ Balanced no

/-- Whether some marks close all open blocks in turn. -/
inductive Completes : List Frame → Marks → Prop where
  | top {ms : Marks} : Balanced ms → Completes [] ms
  | block {f : Frame} {outer : List Frame} {inside rest : Marks} {stop : Nat} :
      Fills f inside → Completes outer rest →
      Completes (f :: outer) (inside ++ (stop, .closes f.kind) :: rest)

section Check

variable {frames : List Frame} {ms rest : Marks}

theorem check_balanced_append (h : Balanced ms) :
    check frames (ms ++ rest) = check frames rest := by
  induction h generalizing frames rest with
  | nil => rfl
  | block hinside hrest ihinside ihrest =>
    rw [List.cons_append, List.append_assoc, List.cons_append, check, ihinside, check,
      if_pos rfl, ihrest]
  | turned hyes hno hrest ihyes ihno ihrest =>
    simp only [List.cons_append, List.append_assoc]
    rw [check, ihyes, check, ihno, check, if_pos rfl, ihrest]

theorem Fills.append {f : Frame} {inside : Marks} (h : Fills f inside) (hms : Balanced ms) :
    Fills f (ms ++ inside) := by
  rcases h with h | ⟨hkind, hturned, yes, turn, no, rfl, hyes, hno⟩
  · exact Or.inl (hms.append h)
  · exact Or.inr ⟨hkind, hturned, ms ++ yes, turn, no, by simp, hms.append hyes, hno⟩

theorem Fills.balanced {line stop : Nat} {kind : BlockKind} {inside : Marks}
    (h : Fills ⟨line, kind, false⟩ inside) :
    Balanced ((line, .opens kind) :: (inside ++ [(stop, .closes kind)])) := by
  rcases h with h | ⟨hkind, -, yes, turn, no, rfl, hyes, hno⟩
  · exact h.block .nil
  · cases hkind
    simpa using hyes.turned hno .nil

theorem Completes.append (h : Completes frames rest) (hms : Balanced ms) :
    Completes frames (ms ++ rest) := by
  cases h with
  | top h => exact .top (hms.append h)
  | block hfills hrest =>
    rw [← List.append_assoc]
    exact .block (hfills.append hms) hrest

theorem completes_of_check (h : check frames ms = []) : Completes frames ms := by
  induction ms generalizing frames with
  | nil =>
    rw [check, List.map_eq_nil_iff] at h
    rw [h]
    exact .top .nil
  | cons m rest ih =>
    obtain ⟨line, mark⟩ := m
    cases mark with
    | opens kind =>
      rw [check] at h
      have hrest := ih h
      generalize hframes : (⟨line, kind, false⟩ :: frames : List Frame) = opened at hrest
      cases hrest with
      | top => cases hframes
      | block hfills hrest =>
        cases hframes
        simpa using hrest.append hfills.balanced
    | turns =>
      rcases frames with _ | ⟨⟨start, kind, turned⟩, outer⟩
      · cases h
      · cases kind with
        | loop => cases h
        | choice =>
          cases turned with
          | true => cases h
          | false =>
            have hrest : Completes (⟨start, .choice, true⟩ :: outer) rest := ih h
            generalize hframes : (⟨start, .choice, true⟩ :: outer : List Frame) = opened at hrest
            cases hrest with
            | top => cases hframes
            | @block f outer' inside rest stop hfills hrest =>
              cases hframes
              have hno := hfills.resolve_right fun h => nomatch h.2.1
              have hturned : Fills ⟨start, .choice, false⟩ ((line, .turns) :: inside) :=
                Or.inr ⟨rfl, rfl, [], line, inside, rfl, .nil, hno⟩
              exact .block hturned hrest
    | closes kind =>
      cases frames with
      | nil => cases h
      | cons f outer =>
        rw [check] at h
        split at h
        next hkind =>
          subst hkind
          rw [← List.nil_append ((line, .closes f.kind) :: rest)]
          exact .block (Or.inl .nil) (ih h)
        next => cases h

theorem check_eq_nil_iff : check [] ms = [] ↔ Balanced ms := by
  constructor
  · intro h
    cases completes_of_check h with
    | top h => exact h
  · intro h
    rw [← List.append_nil ms, check_balanced_append h]
    rfl

end Check

end Brackets

end PatternScript
