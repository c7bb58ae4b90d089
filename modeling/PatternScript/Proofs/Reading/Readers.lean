import PatternScript.Proofs.Reading.Scoping
import PatternScript.Refusal
import PatternScript.Script.Declaration

/-!
# What the readers promise

What a reader accepts has the form of its command: arguments are single values, expressions
and the sides of a condition take turns between operands and operators, and every variable
in them is the host's or declared.
-/
namespace PatternScript

namespace Token

def AllKnown (declared : List String) (ts : List Token) : Prop :=
  ∀ v, .var v ∈ ts → isEnvironmentName v.name = true ∨ v.name ∈ declared

variable {declared : List String} {t : Token} {ts : List Token}

theorem known_of_checkDeclared {v : VarRef} (h : (var v).checkDeclared declared = .ok ()) :
    isEnvironmentName v.name = true ∨ v.name ∈ declared := by
  simp only [checkDeclared] at h
  split at h
  next hv => simpa using hv
  next => cases h

theorem allKnown_of_check (h : checkAllDeclared declared ts = .ok ()) : AllKnown declared ts := by
  rw [checkAllDeclared] at h
  induction ts with
  | nil =>
    intro v hv
    cases hv
  | cons t ts ih =>
    obtain ⟨⟨⟩, ht, hts⟩ := bind_eq_ok.1 h
    intro v hv
    rcases List.mem_cons.1 hv with rfl | hv
    · exact known_of_checkDeclared ht
    · exact ih hts v hv

theorem isOperator_of_ofDigits {word : List Char} (h : ofDigits word = .ok t) :
    t.isOperator = false := by
  rw [ofDigits] at h
  split at h
  next => cases h; rfl
  next => cases h

theorem isOperator_of_ofWord {word : List Char} (h : ofWord word = .ok t) :
    t.isOperator = false := by
  have ofName {r : Except ParseCause VarRef} (h : Token.var <$> r = .ok t) :
      t.isOperator = false := by
    cases r with
    | error e => cases h
    | ok v => cases h; rfl
  unfold ofWord at h
  split at h
  next => exact ofName h
  next => exact ofName h
  next =>
    split at h
    · exact isOperator_of_ofDigits h
    · cases h; rfl
  next =>
    split at h
    · exact isOperator_of_ofDigits h
    · cases h; rfl

end Token

namespace Arguments

variable {key : String} {cs : List Char} {t : Token}

theorem isOperator_of_readValue {rest : { rest : List Char // rest.length ≤ cs.length }}
    (h : readValue key cs = .ok (t, rest)) : t.isOperator = false := by
  rw [readValue] at h
  split at h
  next => cases h
  next =>
    split at h
    · cases h
    · split at h
      · cases h
        rfl
      · cases h
  next =>
    obtain ⟨token, hword, h⟩ := bind_eq_ok.1 h
    cases h
    exact Token.isOperator_of_ofWord hword

theorem isOperator_of_readArgument {rest : { rest : List Char // rest.length < cs.length }}
    (h : readArgument cs = .ok ((key, t), rest)) : t.isOperator = false := by
  rw [readArgument] at h
  simp only at h
  split at h
  · cases h
  · split at h
    · obtain ⟨⟨token, after⟩, hvalue, h⟩ := bind_eq_ok.1 h
      cases h
      exact isOperator_of_readValue hvalue
    · cases h

theorem mem_values_set {args : Arguments} (h : t ∈ (args.set key t').values) :
    t = t' ∨ t ∈ args.values := by
  obtain ⟨e, he, rfl⟩ := List.mem_map.1 h
  rcases NameMap.mem_setEntry he with rfl | he
  · exact Or.inl rfl
  · exact Or.inr (List.mem_map.2 ⟨e, he, rfl⟩)

theorem isOperator_of_readInto {read args : Arguments} (h : readInto read cs = .ok args)
    (hread : ∀ t ∈ read.values, t.isOperator = false) :
    ∀ t ∈ args.values, t.isOperator = false := by
  fun_induction readInto read cs with
  | case1 read cs hcs =>
    cases h
    exact hread
  | case2 read cs c rest hcs ih =>
    obtain ⟨⟨⟨key, token⟩, after, hafter⟩, hargument, h⟩ := bind_eq_ok.1 h
    simp only at h
    split at h
    · cases h
    · refine ih key token after hafter h ?_
      intro t ht
      rcases mem_values_set ht with rfl | ht
      · exact isOperator_of_readArgument hargument
      · exact hread t ht

theorem of_parseDeclared {declared : List String} {args : Arguments}
    (h : parseDeclared declared cs = .ok args) :
    (∀ t ∈ args.values, t.isOperator = false) ∧ Token.AllKnown declared args.values := by
  obtain ⟨read, hread, h⟩ := bind_eq_ok.1 h
  obtain ⟨⟨⟩, hknown, h⟩ := bind_eq_ok.1 h
  cases h
  exact ⟨isOperator_of_readInto hread (by intro t ht; cases ht), Token.allKnown_of_check hknown⟩

end Arguments

namespace Text

theorem head_dropWhile {p : Char → Bool} {cs rest : List Char} {c : Char}
    (h : cs.dropWhile p = c :: rest) : p c = false := by
  induction cs with
  | nil => cases h
  | cons d cs ih =>
    rw [List.dropWhile_cons] at h
    split at h
    · exact ih h
    · next hc =>
      cases h
      simpa using hc

theorem head_trim {cs rest : List Char} {c : Char} (h : trim cs = c :: rest) :
    isAsciiBlank c = false := by
  have hprefix : trim cs <+: trimStart cs := by
    rw [trim, trimEnd, ← List.reverse_suffix, List.reverse_reverse]
    exact List.dropWhile_suffix _
  obtain ⟨tail, htail⟩ := hprefix
  rw [h, List.cons_append] at htail
  have hblank := head_dropWhile htail.symm
  cases hascii : isAsciiBlank c with
  | false => rfl
  | true => rw [isBlank_of_isAsciiBlank hascii] at hblank; cases hblank

end Text

namespace Expression

variable {cs : List Char} {ts : List Token} {declared : List String}

theorem alternates_of_check {phrase : Phrase} (h : check phrase ts = .ok ()) : Alternates ts :=
  mapError_eq_ok.1 h

theorem ne_nil_of_scanFrom {phrase : Phrase} {wantsOperand : Bool} {c : Char} {rest : List Char}
    (hc : Text.isAsciiBlank c = false) (h : scanFrom phrase wantsOperand (c :: rest) = .ok ts) :
    ts ≠ [] := by
  have hskip : (c :: rest).dropWhile Text.isAsciiBlank = c :: rest := by
    rw [List.dropWhile_cons, hc]
    rfl
  rw [scanFrom] at h
  split at h
  next hnil =>
    rw [hskip] at hnil
    cases hnil
  next =>
    obtain ⟨⟨token, after⟩, -, h⟩ := bind_eq_ok.1 h
    obtain ⟨tokens, -, h⟩ := bind_eq_ok.1 h
    cases h
    exact List.cons_ne_nil _ _

theorem alternates_of_parse (h : parse cs = .ok ts) : ts = [] ∨ Alternates ts := by
  obtain ⟨tokens, hscan, h⟩ := bind_eq_ok.1 h
  split at h
  · obtain ⟨⟨⟩, hcheck, h⟩ := bind_eq_ok.1 h
    cases h
    exact Or.inr (alternates_of_check hcheck)
  · next hnil =>
    cases h
    exact Or.inl (by simpa using hnil)

theorem ne_nil_of_parse {c : Char} {rest : List Char} (hc : Text.isAsciiBlank c = false)
    (h : parse (c :: rest) = .ok ts) : ts ≠ [] := by
  obtain ⟨tokens, hscan, h⟩ := bind_eq_ok.1 h
  have hne := ne_nil_of_scanFrom hc hscan
  rw [if_pos hne] at h
  obtain ⟨⟨⟩, -, h⟩ := bind_eq_ok.1 h
  cases h
  exact hne

theorem of_parseDeclared (h : parseDeclared declared cs = .ok ts) :
    parse cs = .ok ts ∧ Token.AllKnown declared ts := by
  obtain ⟨tokens, hparse, h⟩ := bind_eq_ok.1 h
  obtain ⟨⟨⟩, hknown, h⟩ := bind_eq_ok.1 h
  cases h
  exact ⟨hparse, Token.allKnown_of_check hknown⟩

end Expression

theorem Condition.of_parse {cs : List Char} {ts : List Token} (h : parse cs = .ok ts) :
    ts.countP Token.isComparison = 1 ∧ Alternates (split ts).1 ∧ Alternates (split ts).2 := by
  obtain ⟨tokens, hscan, h⟩ := bind_eq_ok.1 h
  obtain ⟨-, h⟩ := throw_unless_eq_ok.1 h
  split at h
  next => cases h
  next hone =>
    obtain ⟨-, h⟩ := throw_unless_eq_ok.1 h
    obtain ⟨⟨⟩, hlhs, h⟩ := bind_eq_ok.1 h
    obtain ⟨⟨⟩, hrhs, h⟩ := bind_eq_ok.1 h
    cases h
    exact ⟨hone, Expression.alternates_of_check hlhs, Expression.alternates_of_check hrhs⟩
  next => cases h

def IsVariableName (name : String) : Prop :=
  ∃ bare, isIdentifier bare = true ∧ name = Declaration.fullName bare

namespace Declaration

variable {args : List Char} {declared : List String}

theorem parts_of_readCount {count : Token} (h : readCount declared args = .ok count) :
    ∃ word, Token.ofWord word = .ok count ∧ count.isOperand = true ∧
      count.checkDeclared declared = .ok () := by
  rw [readCount] at h
  obtain ⟨-, h⟩ := throw_unless_eq_ok.1 h
  split at h
  next =>
    split at h
    next word trailing _ =>
      obtain ⟨-, h⟩ := throw_unless_eq_ok.1 h
      obtain ⟨token, hword, h⟩ := bind_eq_ok.1 h
      obtain ⟨hkind, h⟩ := throw_unless_eq_ok.1 h
      obtain ⟨⟨⟩, hdeclared, h⟩ := bind_eq_ok.1 h
      cases h
      exact ⟨word, hword, by simpa using hkind, hdeclared⟩
    next => cases h
  next => cases h

theorem of_readCount {count : Token} (h : readCount declared args = .ok count) :
    count.isOperand = true ∧ Token.AllKnown declared [count] := by
  obtain ⟨word, -, hoperand, hdeclared⟩ := parts_of_readCount h
  refine ⟨hoperand, ?_⟩
  intro v hv
  cases List.mem_singleton.1 hv
  exact Token.known_of_checkDeclared hdeclared

theorem parts_of_readCondition {ts : List Token} (h : readCondition declared args = .ok ts) :
    ∃ cs, Condition.parse cs = .ok ts ∧ Token.checkAllDeclared declared ts = .ok () := by
  rw [readCondition] at h
  obtain ⟨-, h⟩ := throw_unless_eq_ok.1 h
  obtain ⟨tokens, hparse, h⟩ := bind_eq_ok.1 h
  obtain ⟨⟨⟩, hdeclared, h⟩ := bind_eq_ok.1 h
  cases h
  exact ⟨_, hparse, hdeclared⟩

theorem of_readCondition {ts : List Token} (h : readCondition declared args = .ok ts) :
    (ts.countP Token.isComparison = 1 ∧ Alternates (Condition.split ts).1 ∧
      Alternates (Condition.split ts).2) ∧ Token.AllKnown declared ts := by
  obtain ⟨cs, hparse, hdeclared⟩ := parts_of_readCondition h
  exact ⟨Condition.of_parse hparse, Token.allKnown_of_check hdeclared⟩

theorem parts_of_readLet {a : Action} (h : readLet declared args = .ok a) :
    ∃ name ts, a = .assign name ts ∧ IsVariableName name ∧ isEnvironmentName name = false ∧
      name ∈ declared ∧ ts ≠ [] ∧ ∃ cs, Expression.parseDeclared declared cs = .ok ts := by
  rw [readLet] at h
  split at h
  next before after _ =>
    dsimp only at h
    split at h
    next bare _ =>
      obtain ⟨hbare, h⟩ := throw_unless_eq_ok.1 h
      obtain ⟨henvironment, h⟩ := throw_unless_eq_ok.1 h
      obtain ⟨hdeclared, h⟩ := throw_unless_eq_ok.1 h
      obtain ⟨hvalue, h⟩ := throw_unless_eq_ok.1 h
      obtain ⟨tokens, htokens, h⟩ := bind_eq_ok.1 h
      cases h
      have hne : tokens ≠ [] := by
        obtain ⟨c, rest, htrim⟩ := List.exists_cons_of_ne_nil hvalue
        rw [htrim] at htokens
        exact Expression.ne_nil_of_parse (Text.head_trim htrim)
          (Expression.of_parseDeclared htokens).1
      exact ⟨_, tokens, rfl, ⟨bare, by simpa using hbare, rfl⟩, by simpa using henvironment,
        by simpa using hdeclared, hne, _, htokens⟩
    next => cases h
  next => cases h

theorem of_readLet {a : Action} (h : readLet declared args = .ok a) :
    ∃ name ts, a = .assign name ts ∧ name ∈ declared ∧ Alternates ts ∧
      Token.AllKnown declared ts := by
  obtain ⟨name, ts, rfl, -, -, hdeclared, hne, cs, htokens⟩ := parts_of_readLet h
  obtain ⟨hparse, hknown⟩ := Expression.of_parseDeclared htokens
  exact ⟨name, ts, rfl, hdeclared, (Expression.alternates_of_parse hparse).resolve_left hne, hknown⟩

theorem parts_of_readVar {name : String} {init : Except ParseCause (List Token)}
    (h : readVar declared args = .ok (name, init)) :
    IsVariableName name ∧ isEnvironmentName name = false ∧ name ∉ declared ∧
      ∀ ts, init = .ok ts → ts = [] ∨ ∃ cs, Expression.parseDeclared declared cs = .ok ts := by
  unfold readVar at h
  split at h
  next rest =>
    obtain ⟨-, h⟩ := throw_unless_eq_ok.1 h
    obtain ⟨hbare, h⟩ := throw_unless_eq_ok.1 h
    obtain ⟨henvironment, h⟩ := throw_unless_eq_ok.1 h
    obtain ⟨hfresh, h⟩ := throw_unless_eq_ok.1 h
    cases h
    refine ⟨⟨_, by simpa using hbare, rfl⟩, by simpa using henvironment, by simpa using hfresh, ?_⟩
    intro ts hinit
    split at hinit
    next =>
      cases hinit
      exact .inl rfl
    next => cases hinit
    next => exact .inr ⟨_, hinit⟩
  next => cases h

theorem of_readVar {name : String} {init : Except ParseCause (List Token)}
    (h : readVar declared args = .ok (name, init)) : name ∉ declared ∧
      ∀ ts, init = .ok ts → (ts = [] ∨ Alternates ts) ∧ Token.AllKnown declared ts := by
  obtain ⟨-, -, hfresh, hinit⟩ := parts_of_readVar h
  refine ⟨hfresh, ?_⟩
  intro ts hts
  rcases hinit ts hts with rfl | ⟨cs, htokens⟩
  · exact ⟨.inl rfl, fun v hv => nomatch hv⟩
  · obtain ⟨hparse, hknown⟩ := Expression.of_parseDeclared htokens
    exact ⟨Expression.alternates_of_parse hparse, hknown⟩

end Declaration

end PatternScript
