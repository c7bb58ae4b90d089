import PatternScript.Proofs.Printing.Capitals
import PatternScript.Proofs.Printing.Cutting
import PatternScript.Proofs.Words

/-!
# Written tokens

What a token looks like when it is written, and that it reads back as itself: as the value of
an argument, where it ends with an ASCII blank or with the line.
-/
namespace PatternScript

open Text (Ends Trimmed isBlank isAsciiBlank isAlpha_iff isDigit_iff upper)

section Identifiers

variable {c : Char} {bare : List Char}

theorem isNameChar_iff : Expression.isNameChar c = true ↔
    65 ≤ c.toNat ∧ c.toNat ≤ 90 ∨ 97 ≤ c.toNat ∧ c.toNat ≤ 122 ∨
      48 ≤ c.toNat ∧ c.toNat ≤ 57 ∨ c.toNat = 95 := by
  have hline : c = '_' ↔ c.toNat = 95 := by rw [← Char.toNat_inj]; exact Iff.rfl
  simp only [Expression.isNameChar, Char.isAlphanum, Bool.or_eq_true, isAlpha_iff, isDigit_iff,
    beq_iff_eq, hline, or_assoc]

theorem isBlank_of_bounds (h : 33 ≤ c.toNat ∧ c.toNat < 128) : isBlank c = false := by
  simp only [isBlank, Bool.or_eq_false_iff, Bool.and_eq_false_iff, decide_eq_false_iff_not,
    beq_eq_false_iff_ne]
  omega

theorem isBlank_of_isNameChar (h : Expression.isNameChar c = true) : isBlank c = false := by
  have hbounds := isNameChar_iff.1 h
  exact isBlank_of_bounds (by omega)

theorem all_isNameChar_of_isIdentifier (h : isIdentifier bare = true) :
    ∀ c ∈ bare, Expression.isNameChar c = true := by
  cases bare with
  | nil => cases h
  | cons c rest =>
    rw [isIdentifier, Bool.and_eq_true, List.all_eq_true] at h
    rw [List.forall_mem_cons]
    refine ⟨?_, h.2⟩
    rw [Expression.isNameChar, Char.isAlphanum, h.1]
    rfl

theorem upper_eq_map (h : ∀ c ∈ bare, Expression.isNameChar c = true) :
    upper bare = bare.map Char.toUpper := by
  induction bare with
  | nil => rfl
  | cons c rest ih =>
    obtain ⟨hc, hrest⟩ := List.forall_mem_cons.1 h
    have hbounds := isNameChar_iff.1 hc
    rw [upper, List.flatMap_cons, Text.upperChar_of_ascii (by omega), ← upper, ih hrest]
    rfl

theorem isIdentifier_upper (h : isIdentifier bare = true) : isIdentifier (upper bare) = true := by
  have hname := all_isNameChar_of_isIdentifier h
  rw [upper_eq_map hname]
  cases bare with
  | nil => cases h
  | cons c rest =>
    rw [isIdentifier, Bool.and_eq_true] at h
    rw [List.map_cons, isIdentifier, Bool.and_eq_true, List.all_eq_true]
    constructor
    · have hbounds := isAlpha_iff.1 h.1
      rw [isAlpha_iff, Text.toNat_toUpper]
      split <;> omega
    · intro d hd
      obtain ⟨c', hc', rfl⟩ := List.mem_map.1 hd
      have hbounds := isNameChar_iff.1 (hname c' (List.mem_cons_of_mem _ hc'))
      have hupper : Expression.isNameChar c'.toUpper = true := by
        rw [isNameChar_iff, Text.toNat_toUpper]
        split <;> omega
      exact hupper

end Identifiers

namespace IsVariableName

variable {name : String}

theorem exists_chars (h : IsVariableName name) :
    ∃ bare, name.toList = '$' :: bare ∧ isIdentifier bare = true ∧ upper bare = bare := by
  obtain ⟨bare, hbare, rfl⟩ := h
  exact ⟨upper bare, String.toList_ofList, isIdentifier_upper hbare, Text.upper_upper bare⟩

theorem nonblank (h : IsVariableName name) : ∀ c ∈ name.toList, isBlank c = false := by
  obtain ⟨bare, hname, hbare, -⟩ := h.exists_chars
  rw [hname, List.forall_mem_cons]
  refine ⟨by decide, fun c hc => ?_⟩
  exact isBlank_of_isNameChar (all_isNameChar_of_isIdentifier hbare c hc)

theorem ofName {bare : List Char} (hname : name.toList = '$' :: bare)
    (hbare : isIdentifier bare = true) (hupper : upper bare = bare) (negated : Bool)
    (written : List Char) : VarRef.ofName bare negated written = .ok ⟨name, negated⟩ := by
  rw [VarRef.ofName, if_pos hbare, hupper, ← hname, String.ofList_toList]

end IsVariableName

theorem VarRef.isVariableName_of_ofName {bare written : List Char} {negated : Bool} {v : VarRef}
    (h : ofName bare negated written = .ok v) : IsVariableName v.name ∧ v.negated = negated := by
  rw [ofName] at h
  split at h
  next hbare =>
    cases h
    exact ⟨⟨bare, hbare, rfl⟩, rfl⟩
  next => cases h

namespace Token

def IsValue : Token → Prop
  | int _ | text _ => True
  | var v => IsVariableName v.name
  | op _ | compare _ => False

theorem chars_int (n : Int32) : (int n).chars =
    if 0 ≤ n.toInt then Nat.toDigits 10 n.toInt.toNat
    else '-' :: Nat.toDigits 10 (-n.toInt).toNat := by
  rw [chars, Int.toString_eq_repr, Int.repr_eq_if]
  split
  · exact Nat.toList_repr
  · rw [String.toList_append, Nat.toList_repr]
    rfl

theorem isDigit_of_mem_toDigits {n : Nat} {c : Char} (h : c ∈ Nat.toDigits 10 n) :
    c.isDigit = true :=
  Nat.isDigit_of_mem_toDigits (by decide) (by decide) h

theorem isDigits_toDigits (n : Nat) : Text.isDigits (Nat.toDigits 10 n) = true := by
  rw [Text.isDigits, Bool.and_eq_true, List.all_eq_true]
  refine ⟨?_, fun c hc => isDigit_of_mem_toDigits hc⟩
  simp [Nat.toDigits_ne_nil]

theorem ofDigits_chars (n : Int32) : ofDigits (int n).chars = .ok (.int n) := by
  have hbounds := Words.bounds n
  have hread : Text.readInt32? (int n).chars = some n := by
    rw [chars_int]
    split
    next h =>
      rw [Text.readInt32?]
      · rw [Text.digitsValue_toDigits, Text.int32?, if_pos (by omega), Int.toNat_of_nonneg h,
          Int32.ofInt_toInt]
      · intro ds hds
        have hdigit : '-'.isDigit = true := isDigit_of_mem_toDigits (hds ▸ List.mem_cons_self)
        exact absurd hdigit (by decide)
    next h =>
      rw [Text.readInt32?, Text.digitsValue_toDigits, Int.toNat_of_nonneg (by omega), Int.neg_neg,
        Text.int32?, if_pos (by omega), Int32.ofInt_toInt]
  rw [ofDigits, hread]

theorem ofWord_int (n : Int32) : ofWord (int n).chars = .ok (.int n) := by
  have hofDigits := ofDigits_chars n
  rw [chars_int] at hofDigits ⊢
  split
  next h =>
    rw [if_pos h] at hofDigits
    have hne {c : Char} {cs : List Char} (hc : c.isDigit = false) :
        Nat.toDigits 10 n.toInt.toNat ≠ c :: cs := by
      intro heq
      have hdigit : c.isDigit = true := isDigit_of_mem_toDigits (heq ▸ List.mem_cons_self)
      exact absurd hdigit (by simp [hc])
    rw [ofWord]
    · rw [if_pos (isDigits_toDigits _), hofDigits]
    · exact fun name => hne rfl
    · exact fun name => hne rfl
    · exact fun name => hne rfl
  next h =>
    rw [if_neg h] at hofDigits
    rw [ofWord]
    · rw [if_pos (isDigits_toDigits _), hofDigits]
    · intro name heq
      have hdigit : '$'.isDigit = true := isDigit_of_mem_toDigits (heq ▸ List.mem_cons_self)
      exact absurd hdigit (by decide)

theorem ofWord_var {v : VarRef} (h : IsVariableName v.name) :
    ofWord (var v).chars = .ok (.var v) := by
  obtain ⟨bare, hname, hbare, hupper⟩ := h.exists_chars
  obtain ⟨name, negated⟩ := v
  cases negated with
  | true =>
    simp only [chars, if_true] at hname ⊢
    rw [hname, ofWord, IsVariableName.ofName hname hbare hupper]
    rfl
  | false =>
    simp only [chars, Bool.false_eq_true, if_false] at hname ⊢
    rw [hname, ofWord, IsVariableName.ofName hname hbare hupper]
    rfl

theorem ofWord_bare {s : List Char} (h : isBareWord s = true) :
    ofWord s = .ok (.text (String.ofList s)) := by
  cases s with
  | nil => cases h
  | cons c rest =>
    simp only [isBareWord, Bool.and_eq_true, bne_iff_ne, Bool.not_eq_true'] at h
    obtain ⟨⟨⟨hdollar, hminus⟩, hdigit⟩, -⟩ := h
    rw [ofWord]
    · rw [if_neg]
      simp [Text.isDigits, hdigit]
    · intro name heq
      exact hdollar (List.cons.inj heq).1
    · intro name heq
      exact hminus (List.cons.inj heq).1
    · intro digits heq
      exact hminus (List.cons.inj heq).1

/-- Whether a token is written as a word that reads back as the token. -/
structure IsWord (t : Token) : Prop where
  nonblank : ∀ c ∈ t.chars, isBlank c = false
  ne_nil : t.chars ≠ []
  unquoted : t.chars.head? ≠ some '"'
  ofWord_eq : ofWord t.chars = .ok t

theorem isWord_int (n : Int32) : (int n).IsWord := by
  have hdigits {m : Nat} : ∀ c ∈ Nat.toDigits 10 m, 48 ≤ c.toNat ∧ c.toNat ≤ 57 :=
    fun c hc => isDigit_iff.1 (isDigit_of_mem_toDigits hc)
  have hbounds : ∀ c ∈ (int n).chars, 45 ≤ c.toNat ∧ c.toNat ≤ 57 := by
    rw [chars_int]
    split
    · intro c hc
      have := hdigits c hc
      omega
    · refine List.forall_mem_cons.2 ⟨by decide, ?_⟩
      intro c hc
      have := hdigits c hc
      omega
  have hne : (int n).chars ≠ [] := by
    rw [chars_int]
    split
    · exact Nat.toDigits_ne_nil
    · exact List.cons_ne_nil _ _
  refine ⟨?_, hne, ?_, ofWord_int n⟩
  · intro c hc
    have := hbounds c hc
    exact isBlank_of_bounds (by omega)
  · intro hquote
    have := hbounds '"' (List.mem_of_mem_head? hquote)
    exact absurd this (by decide)

theorem isWord_var {v : VarRef} (h : IsVariableName v.name) : (var v).IsWord := by
  obtain ⟨bare, hname, -, -⟩ := h.exists_chars
  refine ⟨?_, ?_, ?_, ofWord_var h⟩
  · rw [chars]
    split
    · exact List.forall_mem_cons.2 ⟨by decide, h.nonblank⟩
    · exact h.nonblank
  · rw [chars, hname]
    split <;> exact List.cons_ne_nil _ _
  · rw [chars, hname]
    split <;> simp

theorem isWord_bare {s : String} (h : isBareWord s.toList = true) : (text s).IsWord := by
  have hword := ofWord_bare h
  rw [String.ofList_toList] at hword
  have hchars : (text s).chars = s.toList := if_pos h
  have hplain : ∀ c ∈ s.toList, isBlank c = false ∧ c ≠ '"' := by
    intro c hc
    unfold isBareWord at h
    split at h
    next => cases h
    next hcs =>
      rw [hcs] at hc
      simp only [Bool.and_eq_true, List.all_eq_true] at h
      have hc := h.2 c hc
      simp only [Bool.not_eq_true', Bool.or_eq_false_iff, beq_eq_false_iff_ne] at hc
      exact hc.1.1
  constructor
  · rw [hchars]
    exact fun c hc => (hplain c hc).1
  · rw [hchars]
    intro hnil
    rw [hnil] at h
    cases h
  · rw [hchars]
    intro hquote
    exact (hplain '"' (List.mem_of_mem_head? hquote)).2 rfl
  · rw [hchars, hword]

theorem isWord_or_quoted {t : Token} (h : t.IsValue) :
    t.IsWord ∨ ∃ s, t = .text s ∧ t.chars = '"' :: (escape s.toList ++ ['"']) := by
  cases t with
  | int n => exact .inl (isWord_int n)
  | var v => exact .inl (isWord_var h)
  | text s =>
    cases hbare : isBareWord s.toList with
    | true => exact .inl (isWord_bare hbare)
    | false => exact .inr ⟨s, rfl, by simp [chars, hbare]⟩
  | op o => cases h
  | compare r => cases h

theorem chars_ne_nil {t : Token} (h : t.IsValue) : t.chars ≠ [] := by
  rcases isWord_or_quoted h with hword | ⟨s, -, hchars⟩
  · exact hword.ne_nil
  · rw [hchars]
    exact List.cons_ne_nil _ _

theorem trimmed_chars {t : Token} (h : t.IsValue) : Trimmed t.chars := by
  rcases isWord_or_quoted h with hword | ⟨s, -, hchars⟩
  · exact Text.trimmed_of_word hword.nonblank
  · rw [hchars]
    constructor
    · exact Text.ends_cons (by decide)
    · rw [List.reverse_cons, List.reverse_append]
      exact Text.ends_cons (by decide)

def OneLine (t : Token) : Prop := '\n' ∉ t.chars

theorem IsWord.oneLine {t : Token} (h : t.IsWord) : t.OneLine := by
  intro hfeed
  exact absurd (h.nonblank '\n' hfeed) (by decide)

theorem oneLine_text {s : String} (h : '\n' ∉ s.toList) : (text s).OneLine := by
  have hescape : '\n' ∉ escape s.toList := by
    generalize s.toList = cs at h
    induction cs with
    | nil => exact List.not_mem_nil
    | cons c cs ih =>
      obtain ⟨hc, hcs⟩ := not_or.1 (mt List.mem_cons.2 h)
      rw [escape]
      split <;> simp [hc, ih hcs]
  rw [OneLine, chars]
  split
  · exact h
  · simp [hescape]

section OfWord

variable {t : Token} {word : List Char}

def IsWrittenOperand (t : Token) : Prop := (∃ n, t = .int n) ∨ ∃ v, t = .var v ∧ IsVariableName v.name

theorem IsWrittenOperand.isWord (h : t.IsWrittenOperand) : t.IsWord := by
  rcases h with ⟨n, rfl⟩ | ⟨v, rfl, hv⟩
  · exact isWord_int n
  · exact isWord_var hv

theorem isWrittenOperand_of_ofName {negated : Bool} {bare written : List Char}
    (h : Token.var <$> VarRef.ofName bare negated written = .ok t) : t.IsWrittenOperand := by
  cases hname : VarRef.ofName bare negated written with
  | error cause =>
    rw [hname] at h
    cases h
  | ok v =>
    rw [hname] at h
    cases h
    exact .inr ⟨v, rfl, (VarRef.isVariableName_of_ofName hname).1⟩

theorem isWrittenOperand_of_ofDigits (h : ofDigits word = .ok t) : t.IsWrittenOperand := by
  rw [ofDigits] at h
  split at h
  next n _ =>
    cases h
    exact .inl ⟨n, rfl⟩
  next => cases h

theorem operand_or_text_of_ofWord (h : ofWord word = .ok t) :
    t.IsWrittenOperand ∨ t = .text (String.ofList word) := by
  unfold ofWord at h
  split at h
  next => exact .inl (isWrittenOperand_of_ofName h)
  next => exact .inl (isWrittenOperand_of_ofName h)
  next =>
    split at h
    · exact .inl (isWrittenOperand_of_ofDigits h)
    · cases h
      exact .inr rfl
  next =>
    split at h
    · exact .inl (isWrittenOperand_of_ofDigits h)
    · cases h
      exact .inr rfl

theorem isValue_of_ofWord (h : ofWord word = .ok t) (hfeed : '\n' ∉ word) :
    t.IsValue ∧ t.OneLine := by
  rcases operand_or_text_of_ofWord h with hoperand | rfl
  · refine ⟨?_, hoperand.isWord.oneLine⟩
    rcases hoperand with ⟨n, rfl⟩ | ⟨v, rfl, hv⟩
    · trivial
    · exact hv
  · exact ⟨trivial, oneLine_text (by rwa [String.toList_ofList])⟩

theorem isWord_of_ofWord (h : ofWord word = .ok t) (ht : t.isOperand = true) : t.IsWord := by
  rcases operand_or_text_of_ofWord h with hoperand | rfl
  · exact hoperand.isWord
  · cases ht

end OfWord

end Token

theorem Arguments.readQuoted_escape (read s rest : List Char) :
    readQuoted read (Token.escape s ++ '"' :: rest) = some (read.reverse ++ s, rest) := by
  induction s generalizing read with
  | nil =>
    rw [Token.escape, List.nil_append, readQuoted.eq_def]
    simp
  | cons c s ih =>
    rw [Token.escape]
    split
    next hc =>
      have hprotected : c = '"' ∨ c = '\\' := by simpa using hc
      rw [List.cons_append, List.cons_append, readQuoted, if_neg (by decide), if_pos rfl]
      simp only [hprotected, if_true]
      rw [ih]
      simp
    next hc =>
      simp only [Bool.or_eq_true, beq_iff_eq, not_or] at hc
      rw [List.cons_append, readQuoted.eq_def]
      simp only [hc.1, hc.2, if_false]
      rw [ih]
      simp

namespace Arguments

variable {key : String} {cs rest : List Char}

theorem readValue_unquoted (key : String) {word : List Char} (hne : word ≠ [])
    (hunquoted : word.head? ≠ some '"') (hplain : ∀ c ∈ word, isAsciiBlank c = false)
    (hskip : skipBlanks cs = word ++ rest) (hrest : Ends (!isAsciiBlank ·) rest) :
    ∃ hle, readValue key cs = (Token.ofWord word >>= fun t => .ok (t, ⟨rest, hle⟩)) := by
  have hle : rest.length ≤ cs.length := by
    have hlength := length_skipBlanks_le cs
    rw [hskip, List.length_append] at hlength
    omega
  have hword : ∀ c ∈ word, (!isAsciiBlank c) = true := by
    intro c hc
    rw [hplain c hc]
    rfl
  have htake := Text.takeWhile_append_of_ends hword hrest
  have hdrop := Text.dropWhile_append_of_ends hword hrest
  refine ⟨hle, ?_⟩
  rw [readValue]
  split
  next hnil =>
    rw [hskip, List.append_eq_nil_iff] at hnil
    exact absurd hnil.1 hne
  next body hquote =>
    rw [hskip] at hquote
    obtain ⟨c, word, rfl⟩ := List.exists_cons_of_ne_nil hne
    exact absurd (congrArg some (List.cons.inj hquote).1) hunquoted
  next =>
    simp only [hskip, htake, hdrop]
    rfl

theorem readValue_quoted (key : String) {body text : List Char}
    (hread : readQuoted [] body = some (text, rest)) (hskip : skipBlanks cs = '"' :: body)
    (hrest : Ends (!isAsciiBlank ·) rest) :
    ∃ hle, readValue key cs = .ok (.text (String.ofList text), ⟨rest, hle⟩) := by
  have hle : rest.length ≤ cs.length := by
    have hlength := length_skipBlanks_le cs
    have hbody := length_of_readQuoted hread
    rw [hskip, List.length_cons] at hlength
    omega
  refine ⟨hle, ?_⟩
  rw [readValue]
  split
  next hnil =>
    rw [hskip] at hnil
    cases hnil
  next hquote =>
    rw [hskip] at hquote
    cases hquote
    split
    next hnone =>
      rw [hread] at hnone
      cases hnone
    next hsome =>
      rw [hread] at hsome
      cases hsome
      rw [if_pos (Text.head?_all_of_ends hrest)]
  next hother => exact absurd hskip (hother _)

theorem readValue_chars {t : Token} (ht : t.IsValue) (hskip : skipBlanks cs = t.chars ++ rest)
    (hrest : Ends (!isAsciiBlank ·) rest) : ∃ hle, readValue key cs = .ok (t, ⟨rest, hle⟩) := by
  rcases Token.isWord_or_quoted ht with hword | ⟨s, rfl, hchars⟩
  · obtain ⟨hle, hread⟩ := readValue_unquoted key hword.ne_nil hword.unquoted
      (fun c hc => Text.isAsciiBlank_eq_false (hword.nonblank c hc)) hskip hrest
    rw [hword.ofWord_eq] at hread
    exact ⟨hle, hread⟩
  · have hquoted : skipBlanks cs = '"' :: (Token.escape s.toList ++ '"' :: rest) := by
      rw [hskip, hchars]
      simp
    have hread := readValue_quoted key (readQuoted_escape [] s.toList rest) hquoted hrest
    rwa [List.reverse_nil, List.nil_append, String.ofList_toList] at hread

end Arguments

end PatternScript
