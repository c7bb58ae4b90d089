import PatternScript.Refusal
import PatternScript.Script.Reading

/-!
# What a line is refused for

Complaints about the nesting of blocks come from the terminators, from `ELSE` and from the
end of the source. No reader of what follows a keyword has one of its own, whatever is
written there, and an argument list is refused for its form or for a word in it only.
-/
namespace PatternScript

def ParseCause.OfNesting (cause : ParseCause) : Prop :=
  cause.code = .terminator ∨ cause.code = .openBlock

/-- A reader that is refused for causes of some kind only. -/
def Fails (kind : ParseCode → Bool) {α : Type} (read : Except ParseCause α) : Prop :=
  ∀ cause, read = .error cause → kind cause.code = true

namespace Fails

variable {α β : Type} {kind kind' : ParseCode → Bool} {read : Except ParseCause α}
  {go : α → Except ParseCause β} {cause : ParseCause}

theorem ok (a : α) : Fails kind (.ok a : Except ParseCause α) := nofun

theorem error (h : kind cause.code = true) : Fails kind (.error cause : Except ParseCause α) := by
  intro cause' heq
  cases heq
  exact h

theorem mono (hread : Fails kind read) (h : ∀ code, kind code = true → kind' code = true) :
    Fails kind' read :=
  fun cause hcause => h _ (hread cause hcause)

theorem bind (hread : Fails kind read) (hgo : ∀ a, read = .ok a → Fails kind (go a)) :
    Fails kind (read >>= go) := by
  cases read with
  | error e =>
    intro cause h
    cases h
    exact hread e rfl
  | ok a => exact hgo a rfl

theorem map {f : α → β} (hread : Fails kind read) : Fails kind (f <$> read) := by
  cases read with
  | error e =>
    intro cause h
    cases h
    exact hread e rfl
  | ok a => exact ok (f a)

theorem guarded {p : Prop} [Decidable p] {go : PUnit → Except ParseCause β}
    (h : kind cause.code = true) (hgo : Fails kind (go ⟨⟩)) :
    Fails kind (if p then throw cause >>= go else go ⟨⟩) := by
  split
  · exact error h
  · exact hgo

end Fails

def ParseCode.isPlain (code : ParseCode) : Bool := code != .terminator && code != .openBlock

abbrev Unnested {α : Type} (read : Except ParseCause α) : Prop := Fails ParseCode.isPlain read

theorem Fails.arithmetic {α : Type} {phrase : Phrase} (read : Except ArithmeticFault α) :
    Unnested (read.mapError (.arithmetic phrase)) := by
  cases read with
  | error fault =>
    refine error ?_
    cases phrase <;> rfl
  | ok a => exact ok a

theorem Fails.not_ofNesting {α : Type} {read : Except ParseCause α} {cause : ParseCause}
    (hread : Unnested read) (h : read = .error cause) : ¬ cause.OfNesting := by
  simpa [ParseCode.isPlain, ParseCause.OfNesting] using hread cause h

def ParseCode.isOfList (code : ParseCode) : Bool :=
  code == .malformedArguments || code == .integerLiteral || code == .variableName

theorem Fails.unnested {α : Type} {read : Except ParseCause α}
    (hread : Fails ParseCode.isOfList read) : Unnested read :=
  hread.mono fun code h => by cases code <;> first | rfl | cases h

theorem VarRef.fails_ofName (name : List Char) (negated : Bool) (written : List Char) :
    Fails ParseCode.isOfList (ofName name negated written) := by
  rw [ofName]
  split
  · exact .ok _
  · exact .error rfl

namespace Token

theorem fails_ofDigits (written : List Char) : Fails ParseCode.isOfList (ofDigits written) := by
  rw [ofDigits]
  split
  · exact .ok _
  · exact .error rfl

theorem fails_ofWord (word : List Char) : Fails ParseCode.isOfList (ofWord word) := by
  unfold ofWord
  split
  · exact .map (VarRef.fails_ofName _ _ _)
  · exact .map (VarRef.fails_ofName _ _ _)
  · split
    · exact fails_ofDigits _
    · exact .ok _
  · split
    · exact fails_ofDigits _
    · exact .ok _

theorem unnested_checkDeclared (declared : List String) (t : Token) :
    Unnested (t.checkDeclared declared) := by
  cases t with
  | var v =>
    rw [checkDeclared]
    split
    · exact .ok _
    · exact .error rfl
  | int | text | op | compare => exact .ok _

theorem unnested_checkAllDeclared (declared : List String) (ts : List Token) :
    Unnested (checkAllDeclared declared ts) := by
  rw [checkAllDeclared]
  induction ts with
  | nil => exact .ok _
  | cons t ts ih => exact .bind (unnested_checkDeclared declared t) fun _ _ => ih

end Token

namespace Arguments

theorem fails_readValue (key : String) (cs : List Char) :
    Fails ParseCode.isOfList (readValue key cs) := by
  rw [readValue]
  split
  · exact .error rfl
  · split
    · exact .error rfl
    · split
      · exact .ok _
      · exact .error rfl
  · exact .bind (Token.fails_ofWord _) fun _ _ => .ok _

theorem fails_readArgument (cs : List Char) : Fails ParseCode.isOfList (readArgument cs) := by
  rw [readArgument]
  dsimp only
  split
  · exact .error rfl
  · split
    · exact .bind (fails_readValue _ _) fun _ _ => .ok _
    · exact .error rfl

theorem fails_readInto (read : Arguments) (cs : List Char) :
    Fails ParseCode.isOfList (readInto read cs) := by
  fun_induction readInto read cs with
  | case1 => exact .ok _
  | case2 read cs c rest h ih =>
    refine .bind (fails_readArgument _) ?_
    intro found hfound
    obtain ⟨⟨key, token⟩, after, hafter⟩ := found
    dsimp only
    split
    · exact .error rfl
    · exact ih key token after hafter

theorem unnested_parseDeclared (declared : List String) (cs : List Char) :
    Unnested (parseDeclared declared cs) :=
  .bind (fails_readInto _ _).unnested fun _ _ =>
    .bind (Token.unnested_checkAllDeclared _ _) fun _ _ => .ok _

end Arguments

namespace Expression

theorem unnested_scanToken (phrase : Phrase) (wantsOperand : Bool) (c : Char) (cs : List Char) :
    Unnested (scanToken phrase wantsOperand c cs) := by
  have hnumber (before cs : List Char) : Unnested (scanNumber before cs) :=
    .bind (Token.fails_ofDigits _).unnested fun _ _ => .ok _
  have hvariable (negated : Bool) (cs : List Char) : Unnested (scanVariable negated cs) :=
    .bind (VarRef.fails_ofName _ _ _).unnested fun _ _ => .ok _
  rw [scanToken]
  dsimp only
  split
  · exact .bind (hnumber _ _) fun _ _ => .ok _
  · split
    · exact hvariable _ _
    · split
      · exact hnumber _ _
      · split
        · exact .bind (hvariable _ _) fun _ _ => .ok _
        · split
          · exact .ok _
          · split
            · exact .arithmetic _
            · exact .arithmetic (.error _)

theorem unnested_scanFrom (phrase : Phrase) (wantsOperand : Bool) (cs : List Char) :
    Unnested (scanFrom phrase wantsOperand cs) := by
  fun_induction scanFrom phrase wantsOperand cs with
  | case1 => exact .ok _
  | case2 wantsOperand cs c rest h ih =>
    refine .bind (unnested_scanToken _ _ _ _) ?_
    intro found hfound
    obtain ⟨token, after, hafter⟩ := found
    exact .bind (ih token after hafter) fun _ _ => .ok _

theorem unnested_parse (cs : List Char) : Unnested (parse cs) := by
  refine .bind (unnested_scanFrom _ _ _) ?_
  intro tokens _
  dsimp only
  split
  · exact .bind (.arithmetic _) fun _ _ => .ok _
  · exact .ok _

theorem unnested_parseDeclared (declared : List String) (cs : List Char) :
    Unnested (parseDeclared declared cs) :=
  .bind (unnested_parse cs) fun _ _ =>
    .bind (Token.unnested_checkAllDeclared _ _) fun _ _ => .ok _

end Expression

theorem Condition.unnested_parse (cs : List Char) : Unnested (parse cs) := by
  refine .bind (Expression.unnested_scanFrom _ _ _) ?_
  intro tokens _
  refine .guarded rfl ?_
  split
  · exact .error rfl
  · exact .guarded rfl (.bind (.arithmetic _) fun _ _ => .bind (.arithmetic _) fun _ _ => .ok _)
  · exact .error rfl

namespace Declaration

variable (declared : List String) (args : List Char)

theorem unnested_readVar : Unnested (readVar declared args) := by
  unfold readVar
  split
  · exact .guarded rfl (.guarded rfl (.guarded rfl (.guarded rfl (.ok _))))
  · exact .error rfl

theorem unnested_initial {name : String} {init : Except ParseCause (List Token)}
    (h : readVar declared args = .ok (name, init)) : Unnested init := by
  unfold readVar at h
  split at h
  next =>
    obtain ⟨-, h⟩ := throw_unless_eq_ok.1 h
    obtain ⟨-, h⟩ := throw_unless_eq_ok.1 h
    obtain ⟨-, h⟩ := throw_unless_eq_ok.1 h
    obtain ⟨-, h⟩ := throw_unless_eq_ok.1 h
    cases h
    split
    · exact .ok _
    · exact .error rfl
    · exact Expression.unnested_parseDeclared _ _
  next => cases h

theorem unnested_readLet : Unnested (readLet declared args) := by
  rw [readLet]
  split
  · dsimp only
    split
    · exact .guarded rfl (.guarded rfl (.guarded rfl
        (.guarded rfl (.bind (Expression.unnested_parseDeclared _ _) fun _ _ => .ok _))))
    · exact .error rfl
  · exact .error rfl

theorem unnested_readCount : Unnested (readCount declared args) := by
  rw [readCount]
  refine .guarded rfl ?_
  split
  · split
    · refine .guarded rfl (.bind (Token.fails_ofWord _).unnested ?_)
      intro count _
      exact .guarded rfl (.bind (Token.unnested_checkDeclared _ _) fun _ _ => .ok _)
    · exact .error rfl
  · exact .error rfl

theorem unnested_readCondition : Unnested (readCondition declared args) := by
  rw [readCondition]
  exact .guarded rfl (.bind (Condition.unnested_parse _) fun _ _ =>
    .bind (Token.unnested_checkAllDeclared _ _) fun _ _ => .ok _)

end Declaration

namespace Definition

variable {f : Fields} {cause : ParseCause}

theorem code_of_text {args : Arguments} {key : String} (h : text args key = .error cause) :
    cause.code = .missingArgument := by
  rw [text] at h
  split at h
  · cases h
  · cases h
    rfl

theorem code_of_size {args : Arguments} {key : String} (h : size args key = .error cause) :
    cause.code = .missingArgument := by
  rw [size] at h
  split at h
  · cases h
  · cases h
    rfl

theorem unnested_text (args : Arguments) (key : String) : Unnested (text args key) := by
  intro cause h
  rw [code_of_text h]
  rfl

theorem unnested_size (args : Arguments) (key : String) : Unnested (size args key) := by
  intro cause h
  rw [code_of_size h]
  rfl

theorem unnested_readFields (args : List Char) : Unnested (readFields args) := by
  rw [readFields]
  split
  · refine .bind (Arguments.fails_readInto _ _).unnested fun args _ =>
      .bind (unnested_text _ _) fun name _ => .guarded rfl ?_
    exact .bind (unnested_size _ _) fun _ _ => .bind (unnested_size _ _) fun _ _ =>
      .bind (unnested_text _ _) fun _ _ => .ok _
  · exact .error rfl

theorem code_of_sizeFault (h : sizeFault? f = some cause) : cause.code = .pattern := by
  rw [sizeFault?] at h
  split at h
  · cases h
    rfl
  · dsimp only at h
    split at h
    · cases h
      rfl
    · cases h

theorem code_of_contentFault {table : PatternTable} (h : contentFault? table f = some cause) :
    cause.code = .pattern := by
  rw [contentFault?] at h
  split at h
  · cases h
    rfl
  · split at h
    · cases h
      rfl
    · split at h
      · cases h
        rfl
      · cases h

theorem unnested_of_pattern {α : Type} (h : cause.code = .pattern) :
    Unnested (.error cause : Except ParseCause α) := by
  refine .error ?_
  rw [h]
  rfl

theorem unnested_read (table : PatternTable) (args : List Char) :
    Unnested (read table args).2 := by
  rw [read]
  cases hfields : readFields args with
  | error cause =>
    intro cause' heq
    cases heq
    exact unnested_readFields args cause hfields
  | ok f =>
    dsimp only
    split
    next cause hsize => exact unnested_of_pattern (code_of_sizeFault hsize)
    next =>
      split
      next cause hcontent => exact unnested_of_pattern (code_of_contentFault hcontent)
      next => exact .ok _

end Definition

end PatternScript
