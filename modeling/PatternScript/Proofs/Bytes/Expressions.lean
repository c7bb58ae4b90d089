import PatternScript.Bytes.Expression
import PatternScript.Proofs.Bytes.Arguments

/-!
# Expressions and conditions by their bytes

The scanner takes each token to a good position, so that no operation goes wrong while an
expression is scanned. The tokens are no more than the bytes, so that the index after that of
a comparison is a word too.
-/
namespace PatternScript.Bytes

open PatternScript.Expression (isNameChar operator?)
open Text (isAsciiBlank)

variable {top start pos : Nat} {text before cs : List Char} {c : Char} {phrase : Phrase}

namespace Expression

theorem lt_of_isDigit (hc : c.isDigit = true) : c.toNat < 128 :=
  Nat.lt_of_le_of_lt (Text.isDigit_iff.1 hc).2 (by decide)

theorem isDigit_of_wide (hc : 128 ≤ c.toNat) : c.isDigit = false :=
  Bool.eq_false_iff.2 fun h => Nat.not_lt.2 hc (lt_of_isDigit h)

theorem narrow_isDigit : Narrow Char.isDigit := narrow_of_ascii fun _ => lt_of_isDigit

theorem narrow_isNameChar : Narrow isNameChar := by
  refine narrow_of_ascii fun c hc => ?_
  rw [isNameChar, Bool.or_eq_true, beq_iff_eq] at hc
  rcases hc with hc | rfl
  · rw [Char.isAlphanum, Bool.or_eq_true, Text.isAlpha_iff, Text.isDigit_iff] at hc
    omega
  · decide

theorem runs_scanNumber? (hsize : (ofText text).length ≤ top) (hat : At text start (before ++ cs))
    (hpos : pos = start + (ofText before).length) (h : start < pos) :
    Runs (Found text) (scanNumber? top text start pos h) (Expression.scanNumber before cs) := by
  have hmove : At text pos cs := hpos ▸ hat.move
  have hstop := (hmove.skip Char.isDigit).1
  have hword : slice? text start (pos + (ofText (cs.takeWhile Char.isDigit)).length) =
      some (before ++ cs.takeWhile Char.isDigit) := by
    rw [← List.takeWhile_append_dropWhile (p := Char.isDigit) (l := cs), ← List.append_assoc] at hat
    have hslice := hat.slice?_eq
    rwa [ofText_append, List.length_append, ← Nat.add_assoc, ← hpos] at hslice
  rw [scanNumber?]
  refine Runs.check (skip?_eq hsize narrow_isDigit hmove _) (Runs.check hword ?_)
  exact .bind (.same _) fun token _ htoken => .ok ⟨htoken, hstop⟩

theorem runs_scanVariable? (hsize : (ofText text).length ≤ top) (hat : At text pos ('$' :: cs))
    (negated : Bool) :
    Runs (Found text) (scanVariable? top negated text pos)
      (Expression.scanVariable negated cs) := by
  have hname := hat.move_ascii (by decide)
  obtain ⟨hstop, hword⟩ := hname.skip isNameChar
  rw [scanVariable?]
  refine Runs.check (add?_eq (Nat.le_trans hat.lt_length hsize)) ?_
  refine Runs.check (skip?_eq hsize narrow_isNameChar hname _) (Runs.check hword ?_)
  refine .bind (.same _) fun ref _ href => .ok ⟨congrArg _ href, hstop⟩

theorem runs_symbol? {token : Token} {width : Nat} {rest : List Char} {Q : List Char → Prop}
    (hfit : pos + width ≤ top) (hat : At text (pos + width) rest) (hrest : Q rest) (h : 0 < width) :
    Runs (Found text) (symbol? top token pos width h)
      (.ok (token, (⟨rest, hrest⟩ : { rest : List Char // Q rest }))) := by
  rw [symbol?]
  exact Runs.check (add?_eq hfit) (.ok ⟨rfl, hat⟩)

theorem runs_scanComparison? {next : Char} (hsize : (ofText text).length ≤ top)
    (hat : At text pos (c :: cs)) (hc : c = '=' ∨ c = '!' ∨ c = '<' ∨ c = '>')
    (hnext : (next == '=') = cs.head?.any (· == '=')) :
    Runs (Found text) (scanComparison? top c next pos)
      ((Expression.scanComparison c cs).mapError (.arithmetic .condition)) := by
  have hascii : c.toNat < 128 := by rcases hc with rfl | rfl | rfl | rfl <;> decide
  have hat' := hat.move_ascii hascii
  have hfit := Nat.le_trans hat.lt_length hsize
  unfold Expression.scanComparison
  dsimp only
  rw [← hnext]
  by_cases hequals : next = '='
  · subst hequals
    obtain ⟨rest, rfl⟩ : ∃ rest, cs = '=' :: rest := by
      cases cs with
      | nil => cases hnext
      | cons d rest => exact ⟨rest, by rw [← beq_iff_eq.1 hnext.symm]⟩
    have hfit' : pos + 2 ≤ top := Nat.le_trans hat'.lt_length hsize
    have hat'' : At text (pos + 2) rest := hat'.move_ascii (by decide)
    rcases hc with rfl | rfl | rfl | rfl
    all_goals exact runs_symbol? hfit' hat'' _ (by decide)
  · rw [beq_eq_false_iff_ne.2 hequals]
    rcases hc with rfl | rfl | rfl | rfl
    all_goals
      unfold scanComparison?
      split <;> first | exact absurd rfl hequals | contradiction | skip
    · exact .error _
    · exact .error _
    · exact runs_symbol? hfit hat' _ _
    · exact runs_symbol? hfit hat' _ _

theorem operator?_of_wide (hc : 128 ≤ c.toNat) : operator? c = none := by
  unfold operator?
  split <;> first | rfl | exact absurd hc (by decide)

theorem scanToken_of_wide (wantsOperand : Bool) (hc : 128 ≤ c.toNat) :
    Expression.scanToken phrase wantsOperand c cs =
      .error (.arithmetic phrase (.strayCharacter c)) := by
  have hne (mark : Char) (hmark : mark.toNat < 128) : c ≠ mark := by
    rintro rfl
    exact Nat.not_lt.2 hc hmark
  have hminus : (c == '-') = false := beq_eq_false_iff_ne.2 (hne _ (by decide))
  have hstray : Expression.scanComparison c cs = .error (.strayCharacter c) :=
    Expression.scanComparison_of_stray (not_or.2 ⟨hne '=' (by decide),
      not_or.2 ⟨hne '!' (by decide), not_or.2 ⟨hne '<' (by decide), hne '>' (by decide)⟩⟩⟩)
  unfold Expression.scanToken
  dsimp only
  rw [isDigit_of_wide hc, hminus, operator?_of_wide hc, hstray, if_neg Bool.false_ne_true,
    if_neg (hne _ (by decide)), Bool.false_and, Bool.false_and, Bool.false_and,
    if_neg Bool.false_ne_true, if_neg Bool.false_ne_true]
  exact ite_self _

theorem runs_scanToken?_wide (wantsOperand : Bool) (hsize : (ofText text).length ≤ top)
    (hat : At text pos (c :: cs)) (hc : 128 ≤ c.toNat) :
    Runs (Found text) (scanToken? top phrase wantsOperand text pos)
      (Expression.scanToken phrase wantsOperand c cs) := by
  obtain ⟨b, hb, hjudge⟩ := hat.get?_cons
  have hbyte : 128 ≤ (charOf b).toNat := by
    have hsame := hjudge (128 ≤ ·.toNat) fun _ _ h h' => by simp [h, h']
    simpa [hc] using hsame
  have hne (mark : Char) (hmark : mark.toNat < 128) : charOf b ≠ mark := by
    intro h
    exact Nat.not_lt.2 hbyte (h ▸ hmark)
  have hminus : (charOf b == '-') = false := beq_eq_false_iff_ne.2 (hne _ (by decide))
  rw [scanToken_of_wide wantsOperand hc, scanToken?]
  refine Runs.check hb (Runs.check (add?_eq (Nat.le_trans hat.lt_length hsize)) ?_)
  dsimp only
  rw [isDigit_of_wide hbyte, hminus, operator?_of_wide hbyte, if_neg Bool.false_ne_true,
    if_neg (hne _ (by decide)), Bool.false_and, Bool.false_and, Bool.false_and,
    if_neg Bool.false_ne_true, if_neg Bool.false_ne_true]
  dsimp only
  rw [if_neg (by simp [hne])]
  exact Runs.check hat.dropTo?_eq (.error _)

theorem runs_scanToken?_ascii (wantsOperand : Bool) (hsize : (ofText text).length ≤ top)
    (hat : At text pos (c :: cs)) (hc : c.toNat < 128) :
    Runs (Found text) (scanToken? top phrase wantsOperand text pos)
      (Expression.scanToken phrase wantsOperand c cs) := by
  have hat' := hat.move_ascii hc
  have hfit : pos + 1 ≤ top := Nat.le_trans hat.lt_length hsize
  have hwidth : pos + 1 = pos + (ofText [c]).length := by
    rw [length_ofText_cons, utf8Size_eq_one_iff.2 hc]
    rfl
  have hnext (p : Char → Bool) (hp : Narrow p) (hzero : p (charOf 0) = false) :=
    hat'.judge_next hp hzero
  obtain ⟨b, hb, -, rfl⟩ := hat.get?_ascii hc
  generalize hx : scanToken? top phrase wantsOperand text pos = x
  rw [Expression.scanToken]
  rw [← hx, scanToken?]
  refine Runs.check hb (Runs.check (add?_eq hfit) ?_)
  dsimp only
  rw [hnext _ narrow_isDigit (by decide), hnext _ (narrow_beq (by decide)) (by decide)]
  split
  next =>
    rw [← bind_pure (scanNumber? ..)]
    exact .bind (runs_scanNumber? hsize hat hwidth _) fun a b h => .ok h
  split
  next hdollar =>
    rw [hdollar] at hat
    exact runs_scanVariable? hsize hat false
  split
  next => exact runs_scanNumber? hsize hat hwidth _
  split
  next hminus =>
    obtain ⟨rest, rfl⟩ : ∃ rest, cs = '$' :: rest := by
      cases cs with
      | nil => simp at hminus
      | cons d rest =>
        simp only [List.head?_cons, Option.any_some, Bool.and_eq_true, beq_iff_eq] at hminus
        exact ⟨rest, by rw [hminus.2]⟩
    exact .bind (runs_scanVariable? hsize hat' true) fun a b h => .ok h
  cases operator? (charOf b) with
  | some o => exact runs_symbol? hfit hat' _ _
  | none =>
    dsimp only
    by_cases hphrase : phrase = .condition
    · rw [if_pos hphrase]
      by_cases hmark : charOf b = '=' ∨ charOf b = '!' ∨ charOf b = '<' ∨ charOf b = '>'
      · rw [if_pos ⟨hphrase, hmark⟩, hphrase]
        exact runs_scanComparison? hsize hat hmark (hnext _ (narrow_beq (by decide)) (by decide))
      · rw [if_neg (fun h => hmark h.2), Expression.scanComparison_of_stray hmark]
        exact Runs.check hat.dropTo?_eq (.error _)
    · rw [if_neg (fun h => hphrase h.1), if_neg hphrase]
      exact Runs.check hat.dropTo?_eq (.error _)

theorem runs_scanToken? (wantsOperand : Bool) (hsize : (ofText text).length ≤ top)
    (hat : At text pos (c :: cs)) :
    Runs (Found text) (scanToken? top phrase wantsOperand text pos)
      (Expression.scanToken phrase wantsOperand c cs) := by
  rcases Nat.lt_or_ge c.toNat 128 with hc | hc
  · exact runs_scanToken?_ascii wantsOperand hsize hat hc
  · exact runs_scanToken?_wide wantsOperand hsize hat hc

theorem runs_scanFrom? (wantsOperand : Bool) (hsize : (ofText text).length ≤ top)
    (hat : At text pos cs) :
    Runs Eq (scanFrom? top phrase wantsOperand text pos)
      (Expression.scanFrom phrase wantsOperand cs) := by
  induction hn : cs.length using Nat.strongRecOn generalizing cs pos wantsOperand with | _ n ih =>
  subst hn
  have hstart := (hat.skip isAsciiBlank).1
  have hskip := skip?_eq hsize narrow_isAsciiBlank hat (Nat.le_refl pos)
  have hblanks := Text.length_dropWhile_le isAsciiBlank cs
  generalize hx : scanFrom? top phrase wantsOperand text pos = x
  rw [Expression.scanFrom]
  split
  next hnil =>
    rw [← hx, scanFrom?]
    refine Runs.check hskip ?_
    dsimp only
    rw [dif_pos (hstart.end_iff.2 hnil)]
    exact .ok rfl
  next c rest hcons =>
    rw [hcons] at hstart hblanks
    rw [← hx, scanFrom?]
    refine Runs.check hskip ?_
    dsimp only
    rw [dif_neg (Nat.not_le_of_gt hstart.lt_length)]
    refine .bind (runs_scanToken? wantsOperand hsize hstart) fun a b hab => ?_
    obtain ⟨token, stop, hstop⟩ := a
    obtain ⟨token', after, hafter⟩ := b
    obtain ⟨hsame, hat'⟩ := hab
    cases hsame
    refine .bind (ih _ (Nat.lt_of_le_of_lt hafter hblanks) _ hat' rfl) fun tokens _ htokens => ?_
    exact .ok (congrArg _ htokens)

theorem runs_parse? (hsize : (ofText cs).length ≤ top) :
    Runs Eq (parse? top cs) (Expression.parse cs) := by
  refine .bind (runs_scanFrom? true hsize (.zero cs)) fun tokens _ htokens => ?_
  subst htokens
  dsimp only
  split
  · exact .bind (.same _) fun _ _ _ => .ok rfl
  · exact .ok rfl

theorem runs_parseDeclared? (declared : List String) (hsize : (ofText cs).length ≤ top) :
    Runs Eq (parseDeclared? top declared cs) (Expression.parseDeclared declared cs) := by
  refine .bind (runs_parse? hsize) fun tokens _ htokens => ?_
  subst htokens
  exact .bind (.same _) fun _ _ _ => .ok rfl

theorem length_of_scanFrom {wantsOperand : Bool} {tokens : List Token}
    (h : Expression.scanFrom phrase wantsOperand cs = .ok tokens) :
    tokens.length ≤ cs.length := by
  induction hn : cs.length using Nat.strongRecOn generalizing cs tokens wantsOperand with
  | _ n ih =>
  subst hn
  have hblanks := Text.length_dropWhile_le isAsciiBlank cs
  rw [Expression.scanFrom] at h
  split at h
  next =>
    cases h
    exact Nat.zero_le _
  next c rest hcons =>
    rw [hcons] at hblanks
    obtain ⟨⟨token, after, hafter⟩, -, h⟩ := bind_eq_ok.1 h
    obtain ⟨tokens', hscan, h⟩ := bind_eq_ok.1 h
    cases h
    have hlt := Nat.lt_of_le_of_lt hafter hblanks
    exact Nat.lt_of_le_of_lt (ih _ hlt hscan rfl) hlt

end Expression

theorem length_le_ofText (cs : List Char) : cs.length ≤ (ofText cs).length := by
  induction cs with
  | nil => exact Nat.le_refl 0
  | cons c cs ih =>
    have := c.utf8Size_pos
    rw [length_ofText_cons, List.length_cons]
    omega

namespace Condition

theorem comparisonsFrom_append {lhs : List Token} (hlhs : ∀ t ∈ lhs, t.isComparison = false)
    (index : Nat) (rest : List Token) :
    comparisonsFrom index (lhs ++ rest) = comparisonsFrom (index + lhs.length) rest := by
  induction lhs generalizing index with
  | nil => rfl
  | cons t lhs ih =>
    have ht := hlhs t List.mem_cons_self
    rw [List.cons_append, comparisonsFrom, ht, if_neg Bool.false_ne_true,
      ih fun t ht => hlhs t (List.mem_cons_of_mem _ ht), List.length_cons]
    congr 1
    omega

theorem length_comparisonsFrom (index : Nat) (tokens : List Token) :
    (comparisonsFrom index tokens).length = tokens.countP (·.isComparison) := by
  induction tokens generalizing index with
  | nil => rfl
  | cons t tokens ih =>
    rw [comparisonsFrom, List.countP_cons]
    split
    next => rw [List.length_cons, ih]
    next => rw [ih, Nat.add_zero]

theorem comparisonsFrom_zero (tokens : List Token) :
    (comparisonsFrom 0 tokens).head? =
      if tokens.dropWhile (!·.isComparison) = [] then none
      else some (tokens.takeWhile (!·.isComparison)).length := by
  have hlhs : ∀ t ∈ tokens.takeWhile (!·.isComparison), t.isComparison = false := by
    intro t ht
    exact Bool.not_eq_true' _ ▸ List.all_eq_true.1 List.all_takeWhile t ht
  have hfirst := List.head?_dropWhile_not (!·.isComparison) tokens
  conv_lhs => rw [← List.takeWhile_append_dropWhile (p := (!·.isComparison)) (l := tokens)]
  rw [comparisonsFrom_append hlhs, Nat.zero_add]
  cases hrest : tokens.dropWhile (!·.isComparison) with
  | nil => rfl
  | cons t rest =>
    rw [hrest] at hfirst
    rw [comparisonsFrom, if_pos (by simpa using hfirst)]
    rfl

theorem sides_eq {tokens : List Token} {index : Nat} (h : comparisonsFrom 0 tokens = [index]) :
    index < tokens.length ∧ before? index tokens = some (Condition.split tokens).1 ∧
      from? (index + 1) tokens = some (Condition.split tokens).2 := by
  have hfirst := comparisonsFrom_zero tokens
  have hsplit := List.takeWhile_append_dropWhile (p := (!·.isComparison)) (l := tokens)
  rw [h] at hfirst
  split at hfirst
  next => cases hfirst
  next hrest =>
    cases hfirst
    obtain ⟨t, rest, hrest⟩ := List.exists_cons_of_ne_nil hrest
    have hlength := congrArg List.length hsplit
    rw [hrest, List.length_append, List.length_cons] at hlength
    have htake := congrArg (List.take (tokens.takeWhile (!·.isComparison)).length) hsplit
    have hdrop := congrArg (List.drop ((tokens.takeWhile (!·.isComparison)).length + 1)) hsplit
    rw [List.take_left] at htake
    rw [List.drop_length_add_append] at hdrop
    refine ⟨by omega, ?_, ?_⟩
    · rw [before?, if_pos (by omega), Condition.split, ← htake]
    · rw [from?, if_pos (by omega), Condition.split, ← hdrop]

theorem runs_parse? (hsize : (ofText cs).length ≤ top) :
    Runs Eq (parse? top cs) (Condition.parse cs) := by
  have hread : Runs Eq (Expression.scan? top .condition cs) (Expression.scan .condition cs) :=
    Expression.runs_scanFrom? true hsize (.zero cs)
  rw [parse?, Condition.parse]
  cases hscan : Expression.scan .condition cs with
  | error cause => exact .bind_error (hscan ▸ hread)
  | ok tokens =>
    have hlength := Nat.le_trans (Expression.length_of_scanFrom hscan) (length_le_ofText cs)
    refine .bind_ok (b := tokens) (hscan ▸ hread) fun _ h => ?_
    rw [h]
    change Runs Eq _ (if tokens = [] then _ else _)
    by_cases hempty : tokens = []
    · rw [if_pos hempty, if_pos hempty]
      exact .error _
    rw [if_neg hempty, if_neg hempty, ← length_comparisonsFrom 0]
    cases hindices : comparisonsFrom 0 tokens with
    | nil => exact .error _
    | cons index others =>
      cases others with
      | cons _ _ => exact .error _
      | nil =>
        obtain ⟨hindex, hlhs, hrhs⟩ := sides_eq hindices
        have hfit : index + 1 ≤ top := by omega
        refine Runs.check hlhs (Runs.check (add?_eq hfit) (Runs.check hrhs ?_))
        dsimp only [List.length_singleton]
        split
        · exact .error _
        · refine .bind (.same _) fun _ _ _ => ?_
          exact .bind (.same _) fun _ _ _ => .ok rfl

end Condition

end PatternScript.Bytes
