import Mathlib.Data.List.TakeWhile
import PatternScript.Proofs.Printing.Phrases

/-!
# The grammar of expressions and conditions

Which texts are read, said without the scanner. A text spells tokens when it is made of a
spelling of each of them in turn, with ASCII blanks anywhere between. The tokens of an
expression are an operand, then operators with an operand after each; those of a condition are
two expressions around one comparison. Exactly the texts that spell such tokens are read, and
as these tokens. That a spelling is never cut short needs no rule of its own here: what follows
an operand is a blank, an operator or the end, and none of these goes on with it.
-/
namespace PatternScript

open Text (Ends isAsciiBlank isDigits digitsValue)

namespace Token

/-- The spellings of a token. A minus sign is part of an operand when it stands directly
before it, and a literal must be an integer of 32 bits together with its sign. -/
inductive SpelledBy : Token → List Char → Prop where
  | number {ds : List Char} {n : Int32} (hds : isDigits ds = true)
      (hn : n.toInt = digitsValue ds) : SpelledBy (.int n) ds
  | minusNumber {ds : List Char} {n : Int32} (hds : isDigits ds = true)
      (hn : n.toInt = -digitsValue ds) : SpelledBy (.int n) ('-' :: ds)
  | name {name : List Char} (hname : isIdentifier name = true) :
      SpelledBy (.var ⟨String.ofList ('$' :: name.map Char.toUpper), false⟩) ('$' :: name)
  | minusName {name : List Char} (hname : isIdentifier name = true) :
      SpelledBy (.var ⟨String.ofList ('$' :: name.map Char.toUpper), true⟩) ('-' :: '$' :: name)
  | operator (o : Arithmetic) : SpelledBy (.op o) o.symbol.toList
  | comparison (r : Comparison) : SpelledBy (.compare r) r.symbol.toList

/-- Whether a text is made of spellings of the tokens, with ASCII blanks between them. -/
inductive AllSpelledBy : List Token → List Char → Prop where
  | nil {blanks : List Char} (hblanks : ∀ c ∈ blanks, isAsciiBlank c = true) :
      AllSpelledBy [] blanks
  | cons {blanks word rest : List Char} {t : Token} {ts : List Token}
      (hblanks : ∀ c ∈ blanks, isAsciiBlank c = true) (hword : t.SpelledBy word)
      (hrest : AllSpelledBy ts rest) : AllSpelledBy (t :: ts) (blanks ++ (word ++ rest))

end Token

inductive Expression.WellFormed : List Token → Prop where
  | operand {t : Token} (ht : t.isOperand = true) : WellFormed [t]
  | step {t : Token} {ts : List Token} (ht : t.isOperand = true) (o : Arithmetic)
      (hts : WellFormed ts) : WellFormed (t :: .op o :: ts)

def Condition.WellFormed (ts : List Token) : Prop :=
  ∃ lhs r rhs, ts = lhs ++ .compare r :: rhs ∧
    Expression.WellFormed lhs ∧ Expression.WellFormed rhs

namespace Token

variable {t : Token} {ts : List Token} {c : Char} {cs word : List Char} {wantsOperand : Bool}

def TakeTurns : Bool → List Token → Prop
  | _, [] => True
  | wantsOperand, t :: ts => t.isOperand = wantsOperand ∧ TakeTurns (!wantsOperand) ts

theorem allSpelledBy_nil_iff : AllSpelledBy [] cs ↔ ∀ c ∈ cs, isAsciiBlank c = true :=
  ⟨fun | .nil hblanks => hblanks, .nil⟩

theorem SpelledBy.isOperator_eq (h : t.SpelledBy word) : t.isOperator = !t.isOperand := by
  cases h <;> rfl

theorem isNameChar_of_isDigit (h : c.isDigit = true) : Expression.isNameChar c = true := by
  simp [Expression.isNameChar, Char.isAlphanum, h]

theorem exists_of_isDigits (h : isDigits cs = true) :
    ∃ d ds, cs = d :: ds ∧ d.isDigit = true ∧ ∀ c ∈ ds, c.isDigit = true := by
  cases cs with
  | nil => simp [isDigits] at h
  | cons d ds => simpa [isDigits] using h

theorem SpelledBy.head (h : t.SpelledBy word) : ∃ c cs, word = c :: cs ∧ isAsciiBlank c = false ∧
    (t.isOperand = true → c.isDigit = true ∨ c = '$' ∨ c = '-') ∧
    (t.isOperand = false → Expression.isNameChar c = false) := by
  cases h with
  | number hds =>
    obtain ⟨d, ds, rfl, hd, -⟩ := exists_of_isDigits hds
    have hblank := isBlank_of_isNameChar (isNameChar_of_isDigit hd)
    exact ⟨d, ds, rfl, Text.isAsciiBlank_eq_false hblank, fun _ => .inl hd, nofun⟩
  | minusNumber | minusName => exact ⟨_, _, rfl, by decide, fun _ => .inr (.inr rfl), nofun⟩
  | name => exact ⟨_, _, rfl, by decide, fun _ => .inr (.inl rfl), nofun⟩
  | operator o => cases o <;> exact ⟨_, _, rfl, by decide, nofun, fun _ => by decide⟩
  | comparison r => cases r <;> exact ⟨_, _, rfl, by decide, nofun, fun _ => by decide⟩

theorem AllSpelledBy.ends {p : Char → Bool} (h : AllSpelledBy ts cs)
    (hblank : ∀ c, isAsciiBlank c = true → p c = false)
    (hword : ∀ t ∈ ts.head?, ∀ c rest, t.SpelledBy (c :: rest) → p c = false) : Ends p cs := by
  cases h with
  | nil hblanks => exact fun c hc => hblank c (hblanks c (List.mem_of_mem_head? hc))
  | @cons blanks word rest t ts hblanks hspelled hrest =>
    cases blanks with
    | nil =>
      obtain ⟨c, cs, rfl, -⟩ := hspelled.head
      exact Text.ends_cons (hword t rfl c cs hspelled)
    | cons c blanks => exact Text.ends_cons (hblank c (hblanks c List.mem_cons_self))

theorem AllSpelledBy.ends_name (h : AllSpelledBy ts cs) (hturns : TakeTurns false ts) :
    Ends Expression.isNameChar cs := by
  refine h.ends ?_ ?_
  · intro c hc
    by_contra hname
    simp [Text.isAsciiBlank_eq_false (isBlank_of_isNameChar (by simpa using hname))] at hc
  · intro t ht c rest hspelled
    obtain ⟨_, _, heq, -, -, hother⟩ := hspelled.head
    cases heq
    obtain ⟨ts, rfl⟩ := List.head?_eq_some_iff.1 ht
    exact hother hturns.1

theorem AllSpelledBy.ends_equals (h : AllSpelledBy ts cs) (hturns : TakeTurns true ts) :
    Ends (· == '=') cs := by
  refine h.ends ?_ ?_
  · rintro c hc
    by_contra heq
    simp only [Bool.not_eq_false, beq_iff_eq] at heq
    exact absurd (heq ▸ hc) (by decide)
  · intro t ht c rest hspelled
    obtain ⟨_, _, heq, -, hoperand, -⟩ := hspelled.head
    cases heq
    obtain ⟨ts, rfl⟩ := List.head?_eq_some_iff.1 ht
    rcases hoperand hturns.1 with hdigit | rfl | rfl
    · by_contra heq
      simp only [Bool.not_eq_false, beq_iff_eq] at heq
      exact absurd (heq ▸ hdigit) (by decide)
    · rfl
    · rfl

end Token

namespace Expression

variable {phrase : Phrase} {wantsOperand : Bool} {c : Char} {cs rest word : List Char} {t : Token}
  {ts : List Token}

open Token (SpelledBy AllSpelledBy TakeTurns)

section Complete

theorem ofDigits_of_spelled {ds : List Char} {n : Int32} (hds : isDigits ds = true)
    (hn : n.toInt = digitsValue ds) : Token.ofDigits ds = .ok (.int n) := by
  obtain ⟨d, ds, rfl, hd, -⟩ := Token.exists_of_isDigits hds
  have hread : Text.readInt32? (d :: ds) = some n := by
    rw [Text.readInt32?]
    · exact Text.int32?_eq_some_iff.2 hn
    · rintro rest heq
      cases heq
      exact absurd hd (by decide)
  rw [Token.ofDigits, hread]

theorem ofDigits_of_minus {ds : List Char} {n : Int32} (hn : n.toInt = -digitsValue ds) :
    Token.ofDigits ('-' :: ds) = .ok (.int n) := by
  rw [Token.ofDigits, Text.readInt32?, Text.int32?_eq_some_iff.2 hn]

theorem scanToken_of_spelled (h : t.SpelledBy (c :: word)) (hwants : t.isOperand = wantsOperand)
    (hphrase : t.isComparison = true → phrase = .condition)
    (hname : t.isOperand = true → Ends isNameChar rest)
    (hequals : t.isComparison = true → Ends (· == '=') rest) :
    ∃ hle, scanToken phrase wantsOperand c (word ++ rest) = .ok (t, ⟨rest, hle⟩) := by
  have hdigit (hoperand : t.isOperand = true) : Ends Char.isDigit rest := by
    intro d hd
    by_contra hdigit
    have hends := hname hoperand d hd
    rw [Token.isNameChar_of_isDigit (by simpa using hdigit)] at hends
    cases hends
  generalize hw : c :: word = spelling at h
  cases h with
  | number hds hn =>
    obtain ⟨d, ds, rfl, hd, htail⟩ := Token.exists_of_isDigits hds
    cases hw
    obtain ⟨hle, hscan⟩ := scanNumber_append [c] htail (ofDigits_of_spelled hds hn) (hdigit rfl)
    refine ⟨hle, ?_⟩
    rw [scanToken]
    simp only [hd, if_true]
    rw [hscan]
    rfl
  | minusNumber hds hn =>
    obtain ⟨d, ds, rfl, hd, htail⟩ := Token.exists_of_isDigits hds
    cases hw
    obtain rfl : wantsOperand = true := hwants.symm
    obtain ⟨hle, hscan⟩ := scanNumber_append ['-'] (List.forall_mem_cons.2 ⟨hd, htail⟩)
      (ofDigits_of_minus hn) (hdigit rfl)
    refine ⟨hle, ?_⟩
    rw [scanToken, if_neg (by decide), if_neg (by decide), if_pos (by simp [hd])]
    exact hscan
  | name hidentifier =>
    cases hw
    obtain ⟨hle, hscan⟩ := scanVariable_append false hidentifier (hname rfl)
    refine ⟨hle, ?_⟩
    rw [scanToken, if_neg (by decide), if_pos rfl, hscan,
      upper_eq_map (all_isNameChar_of_isIdentifier hidentifier)]
  | minusName hidentifier =>
    cases hw
    obtain rfl : wantsOperand = true := hwants.symm
    obtain ⟨hle, hscan⟩ := scanVariable_append true hidentifier (hname rfl)
    refine ⟨Nat.le_succ_of_le hle, ?_⟩
    rw [scanToken, if_neg (by decide), if_neg (by decide), if_neg (by simp), if_pos (by simp)]
    refine bind_eq_ok.2 ⟨_, hscan, ?_⟩
    rw [upper_eq_map (all_isNameChar_of_isIdentifier hidentifier)]
    rfl
  | operator o =>
    obtain rfl : wantsOperand = false := hwants.symm
    cases o <;> cases hw <;> exact ⟨Nat.le_refl _, rfl⟩
  | comparison r =>
    obtain rfl : phrase = .condition := hphrase rfl
    exact scanToken_compare hw.symm (hequals rfl)

theorem scanFrom_of_spelled (h : AllSpelledBy ts cs) (hturns : TakeTurns wantsOperand ts)
    (hphrase : ∀ t ∈ ts, t.isComparison = true → phrase = .condition) :
    scanFrom phrase wantsOperand cs = .ok ts := by
  induction h generalizing wantsOperand with
  | nil hblanks =>
    have hskip := Text.dropWhile_append_of_ends hblanks (Text.ends_nil isAsciiBlank)
    rw [List.append_nil] at hskip
    exact scanFrom_nil hskip
  | @cons blanks word rest t ts hblanks hword hrest ih =>
    obtain ⟨hwants, hturns⟩ := hturns
    obtain ⟨ht, hts⟩ := List.forall_mem_cons.1 hphrase
    obtain ⟨c, word, rfl, hc, -⟩ := hword.head
    have hname (hoperand : t.isOperand = true) : Ends isNameChar rest := by
      rw [← hwants, hoperand] at hturns
      exact hrest.ends_name hturns
    have hequals (hcomparison : t.isComparison = true) : Ends (· == '=') rest := by
      have hoperand : t.isOperand = false := by cases t <;> first | rfl | cases hcomparison
      rw [← hwants, hoperand] at hturns
      exact hrest.ends_equals hturns
    obtain ⟨hle, hscan⟩ := scanToken_of_spelled hword hwants ht hname hequals
    have hends : Ends isAsciiBlank (c :: (word ++ rest)) := Text.ends_cons hc
    rw [List.cons_append, scanFrom_cons (Text.dropWhile_append_of_ends hblanks hends), hscan]
    change (scanFrom phrase t.isOperator rest >>= _) = _
    rw [hword.isOperator_eq, hwants, ih hturns hts]
    rfl

end Complete

section Sound

theorem spelledBy_of_scans (h : Scans phrase wantsOperand c cs t rest) :
    ∃ word, c :: cs = word ++ rest ∧ t.SpelledBy word := by
  cases h with
  | number hc hn =>
    have hds : isDigits (c :: cs.takeWhile Char.isDigit) = true := by simp [isDigits, hc]
    rw [Text.readInt32?, Text.int32?_eq_some_iff] at hn
    · refine ⟨c :: cs.takeWhile Char.isDigit, ?_, .number hds hn⟩
      rw [List.cons_append, List.takeWhile_append_dropWhile]
    · rintro ds heq
      cases heq
      exact absurd hc (by decide)
  | minusNumber hwants hdigit hn =>
    have hds : isDigits (cs.takeWhile Char.isDigit) = true := by
      cases cs with
      | nil => cases hdigit
      | cons d cs => simpa [isDigits] using hdigit
    rw [Text.readInt32?, Text.int32?_eq_some_iff] at hn
    refine ⟨'-' :: cs.takeWhile Char.isDigit, ?_, .minusNumber hds hn⟩
    rw [List.cons_append, List.takeWhile_append_dropWhile]
  | name hname =>
    refine ⟨'$' :: cs.takeWhile isNameChar, ?_, ?_⟩
    · rw [List.cons_append, List.takeWhile_append_dropWhile]
    · rw [Declaration.fullName, upper_eq_map (all_isNameChar_of_isIdentifier hname)]
      exact .name hname
  | @minusName cs hwants hname =>
    refine ⟨'-' :: '$' :: cs.takeWhile isNameChar, ?_, ?_⟩
    · rw [List.cons_append, List.cons_append, List.takeWhile_append_dropWhile]
    · rw [Declaration.fullName, upper_eq_map (all_isNameChar_of_isIdentifier hname)]
      exact .minusName hname
  | @operator _ _ o ho => exact ⟨_, ho, .operator o⟩
  | @comparison _ _ _ r _ hr => exact ⟨_, hr, .comparison r⟩

theorem spelled_of_scanFrom (h : scanFrom phrase wantsOperand cs = .ok ts) :
    AllSpelledBy ts cs := by
  fun_induction scanFrom phrase wantsOperand cs generalizing ts with
  | case1 wantsOperand cs hskip =>
    cases h
    exact .nil (List.dropWhile_eq_nil_iff.1 hskip)
  | case2 wantsOperand cs c rest hskip ih =>
    obtain ⟨⟨token, after, hafter⟩, htoken, h⟩ := bind_eq_ok.1 h
    obtain ⟨tokens, htokens, h⟩ := bind_eq_ok.1 h
    cases h
    obtain ⟨word, hword, hspelled⟩ := spelledBy_of_scans (scans_of_scanToken htoken)
    have hcs : cs = cs.takeWhile isAsciiBlank ++ (word ++ after) := by
      rw [← hword, ← hskip, List.takeWhile_append_dropWhile]
    rw [hcs]
    exact .cons (fun _ => List.mem_takeWhile_imp) hspelled (ih token after hafter htokens)

end Sound

section Formed

variable {lhs : List Token}

theorem wellFormed_of_checkAlternation (ts : List Token) :
    (checkAlternation true ts = .ok () → WellFormed ts) ∧
      ∀ t, t.isOperand = true → checkAlternation false ts = .ok () → WellFormed (t :: ts) := by
  induction ts with
  | nil => exact ⟨nofun, fun t ht _ => .operand ht⟩
  | cons u ts ih =>
    constructor
    · intro h
      cases u with
      | int | var => exact ih.2 _ rfl h
      | text | op | compare => cases h
    · intro t ht h
      cases u with
      | op o => exact .step ht o (ih.1 h)
      | int | var | text | compare => cases h

theorem alternates_iff_wellFormed : Alternates ts ↔ WellFormed ts := by
  refine ⟨(wellFormed_of_checkAlternation ts).1, ?_⟩
  intro h
  induction h with
  | @operand t ht => cases t <;> first | rfl | cases ht
  | @step t ts ht o hts ih => cases t <;> first | exact ih | cases ht

theorem WellFormed.ne_nil (h : WellFormed ts) : ts ≠ [] := by
  cases h <;> exact List.cons_ne_nil _ _

theorem WellFormed.takeTurns_append (h : WellFormed lhs) (hts : TakeTurns false ts) :
    TakeTurns true (lhs ++ ts) := by
  induction h with
  | operand ht => exact ⟨ht, hts⟩
  | step ht o _ ih => exact ⟨ht, rfl, ih⟩

theorem WellFormed.takeTurns (h : WellFormed ts) : TakeTurns true ts := by
  have hturns : TakeTurns true (ts ++ []) := h.takeTurns_append trivial
  rwa [List.append_nil] at hturns

theorem WellFormed.isComparison_eq_false (h : WellFormed ts) :
    ∀ t ∈ ts, t.isComparison = false := by
  have hoperand {t : Token} (ht : t.isOperand = true) : t.isComparison = false := by
    cases t <;> first | rfl | cases ht
  induction h with
  | operand ht => simpa only [List.forall_mem_singleton] using hoperand ht
  | step ht o _ ih => exact List.forall_mem_cons.2 ⟨hoperand ht, List.forall_mem_cons.2 ⟨rfl, ih⟩⟩

theorem parse_eq_ok_iff :
    parse cs = .ok ts ↔ AllSpelledBy ts cs ∧ (ts = [] ∨ WellFormed ts) := by
  constructor
  · intro h
    exact ⟨spelled_of_scanFrom (scan_of_parse h),
      (alternates_of_parse h).imp_right alternates_iff_wellFormed.1⟩
  · rintro ⟨hspelled, rfl | hts⟩
    · exact bind_eq_ok.2 ⟨[], scanFrom_of_spelled hspelled trivial nofun, rfl⟩
    · have hscan : scan .expression cs = .ok ts :=
        scanFrom_of_spelled hspelled hts.takeTurns fun t ht hcomparison => by
          rw [hts.isComparison_eq_false t ht] at hcomparison
          cases hcomparison
      have hcheck : check .expression ts = .ok () :=
        mapError_eq_ok.2 (alternates_iff_wellFormed.2 hts)
      refine bind_eq_ok.2 ⟨ts, hscan, ?_⟩
      rw [if_pos hts.ne_nil, hcheck]
      rfl

end Formed

end Expression

namespace Condition

open Expression (alternates_iff_wellFormed)
open Token (AllSpelledBy)

variable {cs : List Char} {ts lhs rhs : List Token} {r : Comparison}

theorem split_append (hlhs : ∀ t ∈ lhs, t.isComparison = false) :
    split (lhs ++ .compare r :: rhs) = (lhs, rhs) := by
  have hkept : ∀ t ∈ lhs, (!t.isComparison) = true := by simpa using hlhs
  rw [split, List.takeWhile_append_of_pos hkept, List.dropWhile_append_of_pos hkept]
  simp [Token.isComparison]

theorem countP_append (hlhs : ∀ t ∈ lhs, t.isComparison = false)
    (hrhs : ∀ t ∈ rhs, t.isComparison = false) :
    (lhs ++ .compare r :: rhs).countP (·.isComparison) = 1 := by
  have hnone {ts : List Token} (h : ∀ t ∈ ts, t.isComparison = false) :
      ts.countP (·.isComparison) = 0 := List.countP_eq_zero.2 (by simpa using h)
  rw [List.countP_append, List.countP_cons_of_pos rfl, hnone hlhs, hnone hrhs]

theorem exists_of_countP_eq_one (h : ts.countP (·.isComparison) = 1) :
    ∃ r, ts = (split ts).1 ++ .compare r :: (split ts).2 := by
  have hcut := List.takeWhile_append_dropWhile (p := (!·.isComparison)) (l := ts)
  cases hdrop : ts.dropWhile (!·.isComparison) with
  | nil =>
    have hnone : ts.countP (·.isComparison) = 0 :=
      List.countP_eq_zero.2 (by simpa using List.dropWhile_eq_nil_iff.1 hdrop)
    omega
  | cons t rest =>
    have hne : ts.dropWhile (!·.isComparison) ≠ [] := by rw [hdrop]; exact List.cons_ne_nil t rest
    have ht : t.isComparison = true := by
      simpa [hdrop] using List.head_dropWhile_not (!Token.isComparison ·) hne
    cases t with
    | compare r =>
      refine ⟨r, ?_⟩
      rw [split, hdrop]
      rw [hdrop] at hcut
      exact hcut.symm
    | int | var | text | op => cases ht

theorem parse_eq_ok_iff : parse cs = .ok ts ↔ AllSpelledBy ts cs ∧ WellFormed ts := by
  constructor
  · intro h
    obtain ⟨hcount, hlhs, hrhs⟩ := of_parse h
    obtain ⟨r, hsplit⟩ := exists_of_countP_eq_one hcount
    exact ⟨Expression.spelled_of_scanFrom (scan_of_parse h), _, r, _, hsplit,
      alternates_iff_wellFormed.1 hlhs, alternates_iff_wellFormed.1 hrhs⟩
  · rintro ⟨hspelled, lhs, r, rhs, rfl, hlhs, hrhs⟩
    have hscan : Expression.scan .condition cs = .ok (lhs ++ .compare r :: rhs) :=
      Expression.scanFrom_of_spelled hspelled (hlhs.takeTurns_append ⟨rfl, hrhs.takeTurns⟩)
        fun _ _ _ => rfl
    refine bind_eq_ok.2 ⟨_, hscan, throw_unless_eq_ok.2 ⟨by simp, ?_⟩⟩
    rw [countP_append hlhs.isComparison_eq_false hrhs.isComparison_eq_false]
    dsimp only
    rw [split_append hlhs.isComparison_eq_false]
    have hcheck {ts : List Token} (hts : Expression.WellFormed ts) :
        Expression.check .condition ts = .ok () :=
      mapError_eq_ok.2 (alternates_iff_wellFormed.2 hts)
    refine throw_unless_eq_ok.2 ⟨by simp [hlhs.ne_nil, hrhs.ne_nil], ?_⟩
    rw [hcheck hlhs, hcheck hrhs]
    rfl

end Condition

/-- The grammar of what is read. An expression is read from blank text, as no tokens, and from
text that spells an operand and then operators with operands after them; a condition from text
that spells two such expressions around one comparison. Either is read as the tokens spelled. -/
theorem Phrase.read_iff_spelled (cs : List Char) (ts : List Token) :
    (Expression.parse cs = .ok ts ↔
      (ts = [] ∧ ∀ c ∈ cs, isAsciiBlank c = true) ∨
        (Expression.WellFormed ts ∧ Token.AllSpelledBy ts cs)) ∧
    (Condition.parse cs = .ok ts ↔ Condition.WellFormed ts ∧ Token.AllSpelledBy ts cs) := by
  refine ⟨Expression.parse_eq_ok_iff.trans ⟨?_, ?_⟩, Condition.parse_eq_ok_iff.trans and_comm⟩
  · rintro ⟨hspelled, rfl | hts⟩
    · exact .inl ⟨rfl, Token.allSpelledBy_nil_iff.1 hspelled⟩
    · exact .inr ⟨hts, hspelled⟩
  · rintro (⟨rfl, hblanks⟩ | ⟨hts, hspelled⟩)
    · exact ⟨Token.allSpelledBy_nil_iff.2 hblanks, .inl rfl⟩
    · exact ⟨hspelled, .inr hts⟩

end PatternScript
