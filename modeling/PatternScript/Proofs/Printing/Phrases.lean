import PatternScript.Proofs.Printing.Tokens

/-!
# Written expressions

The tokens of an expression or a condition fit where they stand: a literal or a variable has a
minus sign of its own only where an operand is wanted. Tokens that fit, written with spaces
between them, are scanned into the same tokens.
-/
namespace PatternScript

open Text (Ends Trimmed isBlank isAsciiBlank upper)

theorem Text.int32?_eq_some_iff {z : Int} {n : Int32} : int32? z = some n ↔ n.toInt = z := by
  have hbounds := Words.bounds n
  rw [int32?]
  split
  next hfits =>
    rw [Option.some.injEq, ← Int32.toInt_inj, Words.toInt_ofInt_of_fits hfits.1 (by omega)]
    exact eq_comm
  next hfits => simp only [reduceCtorEq, false_iff]; omega

namespace Token

/-- Whether a token can be scanned where it stands. -/
def FitsIn (phrase : Phrase) (wantsOperand : Bool) : Token → Prop
  | int n => wantsOperand = true ∨ 0 ≤ n.toInt
  | var v => IsVariableName v.name ∧ (v.negated = true → wantsOperand = true)
  | op _ => True
  | compare _ => phrase = .condition
  | text _ => False

theorem FitsIn.nonblank {phrase : Phrase} {wantsOperand : Bool} {t : Token}
    (h : t.FitsIn phrase wantsOperand) : t.chars ≠ [] ∧ ∀ c ∈ t.chars, isBlank c = false := by
  cases t with
  | int n => exact ⟨(isWord_int n).ne_nil, (isWord_int n).nonblank⟩
  | var v => exact ⟨(isWord_var h.1).ne_nil, (isWord_var h.1).nonblank⟩
  | text s => cases h
  | op o => cases o <;> exact ⟨by decide, Text.nonblank_of_any (by decide)⟩
  | compare r => cases r <;> exact ⟨by decide, Text.nonblank_of_any (by decide)⟩

def AllFit (phrase : Phrase) : Bool → List Token → Prop
  | _, [] => True
  | wantsOperand, t :: ts => t.FitsIn phrase wantsOperand ∧ AllFit phrase t.isOperator ts

end Token

namespace Expression

variable {phrase : Phrase} {wantsOperand : Bool} {c : Char} {cs rest : List Char} {t : Token}

section Written

theorem scanNumber_append (before : List Char) (hcs : ∀ c ∈ cs, c.isDigit = true)
    (hdigits : Token.ofDigits (before ++ cs) = .ok t) (hrest : Ends Char.isDigit rest) :
    ∃ hle, scanNumber before (cs ++ rest) = .ok (t, ⟨rest, hle⟩) := by
  have htake := Text.takeWhile_append_of_ends hcs hrest
  have hdrop := Text.dropWhile_append_of_ends hcs hrest
  refine ⟨by simp, ?_⟩
  simp only [scanNumber, htake, hdrop, hdigits]
  rfl

theorem scanVariable_append (negated : Bool) (hcs : isIdentifier cs = true)
    (hrest : Ends isNameChar rest) :
    ∃ hle, scanVariable negated (cs ++ rest) =
      .ok (.var ⟨String.ofList ('$' :: upper cs), negated⟩, ⟨rest, hle⟩) := by
  have hname := all_isNameChar_of_isIdentifier hcs
  have htake := Text.takeWhile_append_of_ends hname hrest
  have hdrop := Text.dropWhile_append_of_ends hname hrest
  refine ⟨by simp, ?_⟩
  simp only [scanVariable, htake, hdrop, VarRef.ofName, if_pos hcs]
  rfl

theorem scanVariable_chars {v : VarRef} (hv : IsVariableName v.name)
    (hchars : v.name.toList = '$' :: cs) (hrest : Ends isNameChar rest) :
    ∃ hle, scanVariable v.negated (cs ++ rest) = .ok (.var v, ⟨rest, hle⟩) := by
  obtain ⟨bare, hname, hbare, hupper⟩ := hv.exists_chars
  rw [hname] at hchars
  cases hchars
  have hscan := scanVariable_append v.negated hbare hrest
  rw [hupper, ← hname, String.ofList_toList] at hscan
  exact hscan

theorem ends_of_blank {p : Char → Bool}
    (hp : p ' ' = false ∧ p '\t' = false ∧ p '\n' = false ∧ p '\x0c' = false ∧ p '\r' = false)
    (hrest : Ends (!isAsciiBlank ·) rest) : Ends p rest := by
  intro c hc
  have hblank : isAsciiBlank c = true := by simpa using hrest c hc
  simp only [isAsciiBlank, Bool.or_eq_true, beq_iff_eq] at hblank
  rcases hblank with (((rfl | rfl) | rfl) | rfl) | rfl
  · exact hp.1
  · exact hp.2.1
  · exact hp.2.2.1
  · exact hp.2.2.2.1
  · exact hp.2.2.2.2

theorem scanToken_int {n : Int32} (hn : wantsOperand = true ∨ 0 ≤ n.toInt)
    (hchars : (Token.int n).chars = c :: cs) (hrest : Ends (!isAsciiBlank ·) rest) :
    ∃ hle, scanToken phrase wantsOperand c (cs ++ rest) = .ok (.int n, ⟨rest, hle⟩) := by
  have hends : Ends Char.isDigit rest := ends_of_blank (by decide) hrest
  have hwritten := hchars
  have hread := Token.ofDigits_chars n
  rw [hchars] at hread
  rw [Token.chars_int] at hwritten
  split at hwritten
  next hpos =>
    have hdigits : ∀ d ∈ c :: cs, d.isDigit = true := by
      rw [← hwritten]
      exact fun d hd => Token.isDigit_of_mem_toDigits hd
    obtain ⟨hc, hcs⟩ := List.forall_mem_cons.1 hdigits
    obtain ⟨hle, hscan⟩ := scanNumber_append [c] hcs hread hends
    refine ⟨hle, ?_⟩
    rw [scanToken]
    simp only [hc, if_true]
    rw [hscan]
    rfl
  next hneg =>
    cases hwritten
    have hcs : ∀ d ∈ Nat.toDigits 10 (-n.toInt).toNat, d.isDigit = true :=
      fun d hd => Token.isDigit_of_mem_toDigits hd
    have hwants := hn.resolve_right hneg
    obtain ⟨hle, hscan⟩ := scanNumber_append ['-'] hcs hread hends
    refine ⟨hle, ?_⟩
    have hnext : (Nat.toDigits 10 (-n.toInt).toNat ++ rest).head?.any Char.isDigit = true := by
      have hne : Nat.toDigits 10 (-n.toInt).toNat ≠ [] := Nat.toDigits_ne_nil
      obtain ⟨d, ds, hds⟩ := List.exists_cons_of_ne_nil hne
      rw [hds] at hcs ⊢
      simpa using hcs d List.mem_cons_self
    rw [scanToken, if_neg (by decide), if_neg (by decide), hwants, hnext]
    exact hscan

theorem head?_any_eq_false {p : Char → Bool} (h : Ends p rest) : rest.head?.any p = false := by
  cases rest with
  | nil => rfl
  | cons c rest => exact h c rfl

theorem scanToken_var {v : VarRef} (hv : IsVariableName v.name)
    (hneg : v.negated = true → wantsOperand = true)
    (hchars : (Token.var v).chars = c :: cs) (hrest : Ends (!isAsciiBlank ·) rest) :
    ∃ hle, scanToken phrase wantsOperand c (cs ++ rest) = .ok (.var v, ⟨rest, hle⟩) := by
  have hends : Ends isNameChar rest := ends_of_blank (by decide) hrest
  obtain ⟨bare, hname, -, -⟩ := hv.exists_chars
  obtain ⟨hle, hscan⟩ := scanVariable_chars hv hname hends
  rw [Token.chars, hname] at hchars
  split at hchars
  next hnegated =>
    cases hchars
    rw [hnegated] at hscan
    refine ⟨Nat.le_succ_of_le hle, ?_⟩
    rw [scanToken, if_neg (by decide), if_neg (by decide), hneg hnegated, if_neg (by simp),
      if_pos (by simp)]
    exact bind_eq_ok.2 ⟨_, hscan, rfl⟩
  next hnegated =>
    cases hchars
    rw [Bool.eq_false_iff.2 hnegated] at hscan
    refine ⟨hle, ?_⟩
    rw [scanToken, if_neg (by decide), if_pos rfl]
    exact hscan

theorem scanToken_op {o : Arithmetic} (hchars : (Token.op o).chars = c :: cs)
    (hrest : Ends (!isAsciiBlank ·) rest) :
    ∃ hle, scanToken phrase wantsOperand c (cs ++ rest) = .ok (.op o, ⟨rest, hle⟩) := by
  have hdigit : rest.head?.any Char.isDigit = false :=
    head?_any_eq_false (ends_of_blank (by decide) hrest)
  have hdollar : rest.head?.any (· == '$') = false :=
    head?_any_eq_false (ends_of_blank (by decide) hrest)
  cases o with
  | sub =>
    cases hchars
    refine ⟨Nat.le_refl _, ?_⟩
    change scanToken phrase wantsOperand '-' rest = _
    rw [scanToken, if_neg (by decide), if_neg (by decide), hdigit, hdollar, Bool.and_false,
      if_neg Bool.false_ne_true]
    rfl
  | add | mul | div | mod =>
    cases hchars
    exact ⟨Nat.le_refl _, rfl⟩

theorem scanToken_compare {r : Comparison} (hchars : (Token.compare r).chars = c :: cs)
    (hrest : Ends (· == '=') rest) :
    ∃ hle, scanToken .condition wantsOperand c (cs ++ rest) = .ok (.compare r, ⟨rest, hle⟩) := by
  have hequals : rest.head?.any (· == '=') = false := head?_any_eq_false hrest
  cases r with
  | lt =>
    cases hchars
    refine ⟨Nat.le_refl _, ?_⟩
    change (scanComparison '<' rest).mapError (.arithmetic .condition) = _
    rw [scanComparison, hequals]
    rfl
  | gt =>
    cases hchars
    refine ⟨Nat.le_refl _, ?_⟩
    change (scanComparison '>' rest).mapError (.arithmetic .condition) = _
    rw [scanComparison, hequals]
    rfl
  | eq | ne | le | ge =>
    cases hchars
    exact ⟨Nat.le_succ _, rfl⟩

theorem scanToken_chars (ht : t.FitsIn phrase wantsOperand) (hchars : t.chars = c :: cs)
    (hrest : Ends (!isAsciiBlank ·) rest) :
    ∃ hle, scanToken phrase wantsOperand c (cs ++ rest) = .ok (t, ⟨rest, hle⟩) := by
  cases t with
  | int n => exact scanToken_int ht hchars hrest
  | var v => exact scanToken_var ht.1 ht.2 hchars hrest
  | text s => cases ht
  | op o => exact scanToken_op hchars hrest
  | compare r =>
    cases ht
    exact scanToken_compare hchars (ends_of_blank (by decide) hrest)

theorem scanFrom_nil (hskip : cs.dropWhile isAsciiBlank = []) :
    scanFrom phrase wantsOperand cs = .ok [] := by
  rw [scanFrom]
  split
  next => rfl
  next hcons =>
    rw [hskip] at hcons
    cases hcons

theorem scanFrom_cons (hskip : cs.dropWhile isAsciiBlank = c :: rest) :
    scanFrom phrase wantsOperand cs =
      (scanToken phrase wantsOperand c rest >>= fun scanned =>
        scanFrom phrase scanned.1.isOperator scanned.2.1 >>= fun tokens =>
          .ok (scanned.1 :: tokens)) := by
  rw [scanFrom]
  split
  next hnil =>
    rw [hskip] at hnil
    cases hnil
  next hcons =>
    rw [hskip] at hcons
    cases hcons
    rfl

theorem scanFrom_cons_blank (hc : isAsciiBlank c = true) :
    scanFrom phrase wantsOperand (c :: cs) = scanFrom phrase wantsOperand cs := by
  have hskip : (c :: cs).dropWhile isAsciiBlank = cs.dropWhile isAsciiBlank := by
    rw [List.dropWhile_cons, if_pos hc]
  cases hcs : cs.dropWhile isAsciiBlank with
  | nil => rw [scanFrom_nil hcs, scanFrom_nil (hskip.trans hcs)]
  | cons d rest => rw [scanFrom_cons hcs, scanFrom_cons (hskip.trans hcs)]

theorem scanFrom_written {ts : List Token} {blanks : List Char}
    (hts : Token.AllFit phrase wantsOperand ts) (hblanks : ∀ c ∈ blanks, isAsciiBlank c = true) :
    scanFrom phrase wantsOperand ((ts.map Token.chars).flatMap (' ' :: ·) ++ blanks) =
      .ok ts := by
  induction ts generalizing wantsOperand with
  | nil =>
    have hskip := Text.dropWhile_append_of_ends hblanks (Text.ends_nil isAsciiBlank)
    rw [List.append_nil] at hskip
    exact scanFrom_nil hskip
  | cons t ts ih =>
    obtain ⟨ht, hts⟩ := hts
    obtain ⟨c, cs, hchars⟩ := List.exists_cons_of_ne_nil ht.nonblank.1
    have hc : isAsciiBlank c = false :=
      Text.isAsciiBlank_eq_false (ht.nonblank.2 c (by rw [hchars]; exact List.mem_cons_self))
    have hrest : Ends (!isAsciiBlank ·) ((ts.map Token.chars).flatMap (' ' :: ·) ++ blanks) := by
      cases ts with
      | nil =>
        intro d hd
        have hblank := hblanks d (List.mem_of_mem_head? hd)
        simpa using hblank
      | cons t ts => exact Text.ends_cons rfl
    -- The token ends where the blank before the next one stands, so that nothing of that is taken.
    obtain ⟨hle, hscan⟩ := scanToken_chars ht hchars hrest
    rw [List.map_cons, List.flatMap_cons, hchars, List.append_assoc, List.cons_append,
      scanFrom_cons_blank rfl, List.cons_append,
      scanFrom_cons (Text.dropWhile_of_ends (Text.ends_cons hc)), hscan]
    change (scanFrom phrase t.isOperator _ >>= _) = _
    rw [ih hts]
    rfl

end Written

section Fitting

variable {scanned : Scanned cs} {declared : List String} {ts : List Token}

inductive Scans (phrase : Phrase) (wantsOperand : Bool) :
    Char → List Char → Token → List Char → Prop where
  | number {c : Char} {cs : List Char} {n : Int32} (hc : c.isDigit = true)
      (hn : Text.readInt32? (c :: cs.takeWhile Char.isDigit) = some n) :
      Scans phrase wantsOperand c cs (.int n) (cs.dropWhile Char.isDigit)
  | minusNumber {cs : List Char} {n : Int32} (hwants : wantsOperand = true)
      (hdigit : cs.head?.any Char.isDigit = true)
      (hn : Text.readInt32? ('-' :: cs.takeWhile Char.isDigit) = some n) :
      Scans phrase wantsOperand '-' cs (.int n) (cs.dropWhile Char.isDigit)
  | name {cs : List Char} (hname : isIdentifier (cs.takeWhile isNameChar) = true) :
      Scans phrase wantsOperand '$' cs
        (.var ⟨Declaration.fullName (cs.takeWhile isNameChar), false⟩) (cs.dropWhile isNameChar)
  | minusName {cs : List Char} (hwants : wantsOperand = true)
      (hname : isIdentifier (cs.takeWhile isNameChar) = true) :
      Scans phrase wantsOperand '-' ('$' :: cs)
        (.var ⟨Declaration.fullName (cs.takeWhile isNameChar), true⟩) (cs.dropWhile isNameChar)
  | operator {c : Char} {cs : List Char} {o : Arithmetic} (ho : c :: cs = o.symbol.toList ++ cs) :
      Scans phrase wantsOperand c cs (.op o) cs
  | comparison {c : Char} {cs rest : List Char} {r : Comparison} (hphrase : phrase = .condition)
      (hr : c :: cs = r.symbol.toList ++ rest) : Scans phrase wantsOperand c cs (.compare r) rest

theorem of_scanNumber {before : List Char} (h : scanNumber before cs = .ok scanned) :
    ∃ n, Text.readInt32? (before ++ cs.takeWhile Char.isDigit) = some n ∧
      scanned.1 = .int n ∧ scanned.2.1 = cs.dropWhile Char.isDigit := by
  obtain ⟨token, htoken, h⟩ := bind_eq_ok.1 h
  cases h
  rw [Token.ofDigits] at htoken
  split at htoken
  next n hread =>
    cases htoken
    exact ⟨n, hread, rfl, rfl⟩
  next => cases htoken

theorem of_scanVariable {negated : Bool} (h : scanVariable negated cs = .ok scanned) :
    isIdentifier (cs.takeWhile isNameChar) = true ∧
      scanned.1 = .var ⟨Declaration.fullName (cs.takeWhile isNameChar), negated⟩ ∧
      scanned.2.1 = cs.dropWhile isNameChar := by
  obtain ⟨v, hname, h⟩ := bind_eq_ok.1 h
  cases h
  rw [VarRef.ofName] at hname
  split at hname
  next hidentifier =>
    cases hname
    exact ⟨hidentifier, rfl, rfl⟩
  next => cases hname

theorem of_scanComparison (h : scanComparison c cs = .ok scanned) :
    ∃ r : Comparison, scanned.1 = .compare r ∧ c :: cs = r.symbol.toList ++ scanned.2.1 := by
  have hlong (hnext : cs.head?.any (· == '=') = true) : cs = '=' :: cs.drop 1 := by
    cases cs with
    | nil => cases hnext
    | cons d cs =>
      have hd : d = '=' := by simpa using hnext
      rw [hd]
      rfl
  unfold scanComparison at h
  dsimp only at h
  split at h
  next =>
    cases h
    split
    next hnext => exact ⟨.le, rfl, congrArg ('<' :: ·) (hlong hnext)⟩
    next => exact ⟨.lt, rfl, rfl⟩
  next =>
    cases h
    split
    next hnext => exact ⟨.ge, rfl, congrArg ('>' :: ·) (hlong hnext)⟩
    next => exact ⟨.gt, rfl, rfl⟩
  next =>
    split at h
    next hnext =>
      cases h
      exact ⟨.eq, rfl, congrArg ('=' :: ·) (hlong hnext)⟩
    next => cases h
  next =>
    split at h
    next hnext =>
      cases h
      exact ⟨.ne, rfl, congrArg ('!' :: ·) (hlong hnext)⟩
    next => cases h
  next => cases h

theorem symbol_of_operator? {o : Arithmetic} (h : operator? c = some o) :
    o.symbol.toList = [c] := by
  unfold operator? at h
  split at h <;> first | (cases h; rfl) | cases h

theorem scans_of_scanToken (h : scanToken phrase wantsOperand c cs = .ok scanned) :
    Scans phrase wantsOperand c cs scanned.1 scanned.2.1 := by
  rw [scanToken] at h
  split at h
  next hdigit =>
    obtain ⟨scanned', hnumber, h⟩ := bind_eq_ok.1 h
    cases h
    obtain ⟨n, hn, htoken, hrest⟩ := of_scanNumber hnumber
    rw [htoken, hrest]
    exact .number hdigit hn
  next =>
    split at h
    next hdollar =>
      obtain ⟨hname, htoken, hrest⟩ := of_scanVariable h
      rw [hdollar, htoken, hrest]
      exact .name hname
    next =>
      split at h
      next hsign =>
        simp only [Bool.and_eq_true, beq_iff_eq] at hsign
        obtain ⟨⟨rfl, hwants⟩, hdigit⟩ := hsign
        obtain ⟨n, hn, htoken, hrest⟩ := of_scanNumber h
        rw [htoken, hrest]
        exact .minusNumber hwants hdigit hn
      next =>
        split at h
        next hsign =>
          simp only [Bool.and_eq_true, beq_iff_eq] at hsign
          obtain ⟨⟨rfl, hwants⟩, hdollar⟩ := hsign
          obtain ⟨d, after, rfl⟩ : ∃ d after, cs = d :: after := by
            cases cs with
            | nil => cases hdollar
            | cons d after => exact ⟨d, after, rfl⟩
          obtain rfl : d = '$' := by simpa using hdollar
          obtain ⟨scanned', hvariable, h⟩ := bind_eq_ok.1 h
          cases h
          obtain ⟨hname, htoken, hrest⟩ := of_scanVariable hvariable
          dsimp only
          rw [htoken, hrest]
          exact .minusName hwants hname
        next =>
          split at h
          next o ho =>
            cases h
            exact .operator (by rw [symbol_of_operator? ho]; rfl)
          next =>
            split at h
            next hcondition =>
              obtain ⟨r, htoken, hr⟩ := of_scanComparison (mapError_eq_ok.1 h)
              rw [htoken]
              exact .comparison hcondition hr
            next => cases h

theorem nonneg_of_readInt32? {n : Int32} (hc : c ≠ '-')
    (h : Text.readInt32? (c :: cs) = some n) : 0 ≤ n.toInt := by
  rw [Text.readInt32?, Text.int32?_eq_some_iff] at h
  · omega
  · intro ds hds
    exact hc (List.cons.inj hds).1

theorem fitsIn_of_scanToken (h : scanToken phrase wantsOperand c cs = .ok scanned) :
    scanned.1.FitsIn phrase wantsOperand := by
  have hscans := scans_of_scanToken h
  generalize scanned.1 = t, scanned.2.1 = after at hscans
  cases hscans with
  | number hc hn =>
    refine .inr (nonneg_of_readInt32? ?_ hn)
    rintro rfl
    exact absurd hc (by decide)
  | minusNumber hwants => exact .inl hwants
  | name hname => exact ⟨⟨_, hname, rfl⟩, nofun⟩
  | minusName hwants hname => exact ⟨⟨_, hname, rfl⟩, fun _ => hwants⟩
  | operator => trivial
  | comparison hphrase => exact hphrase

theorem allFit_of_scanFrom (h : scanFrom phrase wantsOperand cs = .ok ts) :
    Token.AllFit phrase wantsOperand ts := by
  fun_induction scanFrom phrase wantsOperand cs generalizing ts with
  | case1 =>
    cases h
    trivial
  | case2 wantsOperand cs c rest hcs ih =>
    obtain ⟨⟨token, after, hafter⟩, htoken, h⟩ := bind_eq_ok.1 h
    obtain ⟨tokens, htokens, h⟩ := bind_eq_ok.1 h
    cases h
    exact ⟨fitsIn_of_scanToken htoken, ih token after hafter htokens⟩

end Fitting

section Phrases

variable {ts : List Token} {blanks : List Char} {declared : List String}

theorem toList_writtenAll (ts : List Token) :
    (Token.writtenAll ts).toList = [' '].intercalate (ts.map Token.chars) := by
  rw [Token.writtenAll, String.toList_intercalate, List.map_map]
  congr 1
  exact List.map_congr_left fun t _ => String.toList_ofList

theorem nonblank_of_allFit (hts : Token.AllFit phrase wantsOperand ts) :
    ∀ word ∈ ts.map Token.chars, word ≠ [] ∧ ∀ c ∈ word, isBlank c = false := by
  induction ts generalizing wantsOperand with
  | nil => exact fun _ h => nomatch h
  | cons t ts ih =>
    obtain ⟨ht, hts⟩ := hts
    rw [List.map_cons, List.forall_mem_cons]
    exact ⟨ht.nonblank, ih hts⟩

theorem trimmed_writtenAll (h : scan phrase cs = .ok ts) :
    Trimmed (Token.writtenAll ts).toList ∧ '\n' ∉ (Token.writtenAll ts).toList := by
  have hwords := nonblank_of_allFit (allFit_of_scanFrom h)
  rw [toList_writtenAll]
  constructor
  · refine Text.trimmed_intercalate fun word hword => ?_
    exact ⟨(hwords word hword).1, Text.trimmed_of_word (hwords word hword).2⟩
  · intro hfeed
    rcases Text.mem_intercalate hfeed with hspace | ⟨word, hword, hmem⟩
    · cases hspace
    · exact absurd ((hwords word hword).2 _ hmem) (by decide)

theorem writtenAll_ne_nil (h : scan phrase cs = .ok ts) (hne : ts ≠ []) :
    (Token.writtenAll ts).toList ≠ [] := by
  obtain ⟨t, ts, rfl⟩ := List.exists_cons_of_ne_nil hne
  have ht := (nonblank_of_allFit (allFit_of_scanFrom h) _ List.mem_cons_self).1
  rw [toList_writtenAll, List.map_cons, Text.intercalate_cons]
  exact List.append_ne_nil_of_left_ne_nil ht _

theorem scan_writtenAll (h : scan phrase cs = .ok ts)
    (hblanks : ∀ c ∈ blanks, isAsciiBlank c = true) :
    scan phrase ((Token.writtenAll ts).toList ++ blanks) = .ok ts := by
  have hscan := scanFrom_written (allFit_of_scanFrom h) hblanks
  rw [toList_writtenAll]
  cases ts with
  | nil => exact hscan
  | cons t ts =>
    have hne : (t :: ts).map Token.chars ≠ [] := List.cons_ne_nil _ _
    rw [Text.flatMap_eq_intercalate hne, List.cons_append, scanFrom_cons_blank rfl] at hscan
    exact hscan

theorem scan_of_parse (h : parse cs = .ok ts) : scan .expression cs = .ok ts := by
  obtain ⟨tokens, hscan, h⟩ := bind_eq_ok.1 h
  split at h
  · obtain ⟨⟨⟩, -, h⟩ := bind_eq_ok.1 h
    cases h
    exact hscan
  · cases h
    exact hscan

theorem parse_writtenAll (h : parse cs = .ok ts) :
    parse (Token.writtenAll ts).toList = .ok ts := by
  have hscan := scan_of_parse h
  have hwritten := scan_writtenAll hscan (List.forall_mem_nil _)
  rw [List.append_nil] at hwritten
  rw [parse, hscan] at h
  rw [parse, hwritten]
  exact h

theorem parseDeclared_writtenAll (h : parseDeclared declared cs = .ok ts) :
    parseDeclared declared (Token.writtenAll ts).toList = .ok ts := by
  have hparse := (of_parseDeclared h).1
  rw [parseDeclared, hparse] at h
  rw [parseDeclared, parse_writtenAll hparse]
  exact h

end Phrases

end Expression

namespace Condition

variable {cs blanks : List Char} {ts : List Token}

theorem scan_of_parse (h : parse cs = .ok ts) : Expression.scan .condition cs = .ok ts := by
  obtain ⟨tokens, hscan, h⟩ := bind_eq_ok.1 h
  obtain ⟨-, h⟩ := throw_unless_eq_ok.1 h
  split at h
  next => cases h
  next =>
    obtain ⟨-, h⟩ := throw_unless_eq_ok.1 h
    obtain ⟨⟨⟩, -, h⟩ := bind_eq_ok.1 h
    obtain ⟨⟨⟩, -, h⟩ := bind_eq_ok.1 h
    cases h
    exact hscan
  next => cases h

theorem parse_writtenAll (h : parse cs = .ok ts)
    (hblanks : ∀ c ∈ blanks, isAsciiBlank c = true) :
    parse ((Token.writtenAll ts).toList ++ blanks) = .ok ts := by
  have hscan := scan_of_parse h
  rw [parse, hscan] at h
  rw [parse, Expression.scan_writtenAll hscan hblanks]
  exact h

end Condition

end PatternScript
