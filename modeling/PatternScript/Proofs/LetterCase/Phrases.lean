import PatternScript.Proofs.LetterCase.Readers

/-!
# Expressions, conditions and the case of letters

The tokens of a folded text are the folded tokens of the text.
-/
namespace PatternScript

open Text (isAsciiBlank)

namespace Token

theorem isOperator_fold (t : Token) : t.fold.isOperator = t.isOperator := by cases t <;> rfl

theorem isOperand_fold (t : Token) : t.fold.isOperand = t.isOperand := by cases t <;> rfl

theorem isComparison_comp_fold : (·.isComparison) ∘ fold = (·.isComparison) := by
  funext t
  cases t <;> rfl

theorem not_isComparison_comp_fold : (!·.isComparison) ∘ fold = (!·.isComparison) := by
  funext t
  cases t <;> rfl

end Token

namespace Expression

variable {phrase : Phrase} {c : Char} {cs : List Char}

theorem caseBlind_isNameChar : Text.CaseBlind isNameChar :=
  Text.caseBlind_isAlphanum.or (Text.caseBlind_beq (by decide))

theorem folds_scanNumber (before cs : List Char) :
    Folds (FoldsFound Token.fold) (scanNumber before cs) (scanNumber before (Text.fold cs)) := by
  have hblind := Text.caseBlind_isDigit
  have hdigits : Text.fold (cs.takeWhile Char.isDigit) = cs.takeWhile Char.isDigit :=
    Text.fold_eq_self fun c hc =>
      Text.isAlpha_eq_false_of_isDigit (List.all_eq_true.1 List.all_takeWhile c hc)
  rw [scanNumber, scanNumber, Text.takeWhile_fold hblind, hdigits]
  refine .bind (folds_ofDigits _) fun token token' htoken => .ok (Prod.ext htoken ?_)
  exact Text.dropWhile_fold hblind cs

theorem folds_scanVariable (negated : Bool) (cs : List Char) :
    Folds (FoldsFound Token.fold) (scanVariable negated cs)
      (scanVariable negated (Text.fold cs)) := by
  rw [scanVariable, scanVariable, Text.takeWhile_fold caseBlind_isNameChar]
  refine .bind (folds_ofName _ _ negated) fun v v' hv => .ok (Prod.ext (congrArg Token.var hv) ?_)
  exact Text.dropWhile_fold caseBlind_isNameChar cs

theorem folds_scanComparison (c : Char) (cs : List Char) :
    Folds (FoldsFound Token.fold) ((scanComparison c cs).mapError (.arithmetic phrase))
      ((scanComparison c.toUpper (Text.fold cs)).mapError (.arithmetic phrase)) := by
  have hdrop := Text.drop_fold 1 cs
  by_cases hc : c = '=' ∨ c = '!' ∨ c = '<' ∨ c = '>'
  · have hupper : c.toUpper = c := by rcases hc with rfl | rfl | rfl | rfl <;> rfl
    rw [hupper]
    rcases hc with rfl | rfl | rfl | rfl
    all_goals
      unfold scanComparison
      dsimp only
      rw [Text.head?_fold_any (Text.caseBlind_beq (by decide))]
      cases cs.head?.any (· == '=')
    · exact .error rfl
    · exact .ok (Prod.ext rfl hdrop)
    · exact .error rfl
    · exact .ok (Prod.ext rfl hdrop)
    · exact .ok rfl
    · exact .ok (Prod.ext rfl hdrop)
    · exact .ok rfl
    · exact .ok (Prod.ext rfl hdrop)
  · have hmark (mark : Char) (hmark : mark.isAlpha = false) := @Text.toUpper_eq_iff c mark hmark
    rw [scanComparison_of_stray hc, scanComparison_of_stray (by
      rwa [hmark '=' (by decide), hmark '!' (by decide), hmark '<' (by decide),
        hmark '>' (by decide)])]
    exact .error rfl

theorem operator?_of_isAlpha (hc : c.isAlpha = true) : operator? c = none := by
  unfold operator?
  split <;> first | rfl | exact absurd hc (by decide)

theorem operator?_toUpper (c : Char) : operator? c.toUpper = operator? c := by
  cases hc : c.isAlpha with
  | true => rw [operator?_of_isAlpha hc, operator?_of_isAlpha (by rw [Text.caseBlind_isAlpha, hc])]
  | false => rw [(Text.toUpper_eq_iff hc).2 rfl]

theorem folds_scanToken (wantsOperand : Bool) (c : Char) (cs : List Char) :
    Folds (FoldsFound Token.fold) (scanToken phrase wantsOperand c cs)
      (scanToken phrase wantsOperand c.toUpper (Text.fold cs)) := by
  have hdollar : c.toUpper = '$' ↔ c = '$' := Text.toUpper_eq_iff (by decide)
  have hminus : (c.toUpper == '-') = (c == '-') := Text.caseBlind_beq (by decide) c
  unfold scanToken
  dsimp only
  rw [Text.caseBlind_isDigit, hminus, Text.head?_fold_any Text.caseBlind_isDigit,
    Text.head?_fold_any (Text.caseBlind_beq (by decide)), operator?_toUpper]
  simp only [hdollar]
  split
  next hdigit =>
    rw [(Text.toUpper_eq_iff (Text.isAlpha_eq_false_of_isDigit hdigit)).2 rfl]
    exact .bind (folds_scanNumber [c] cs) fun a b h => .ok h
  split
  next => exact folds_scanVariable false cs
  split
  next h =>
    rw [Bool.and_eq_true, Bool.and_eq_true, beq_iff_eq] at h
    rw [h.1.1]
    exact folds_scanNumber ['-'] cs
  split
  next =>
    have hscan := folds_scanVariable true (cs.drop 1)
    rw [← Text.drop_fold] at hscan
    exact .bind hscan fun a b h => .ok h
  split
  next o ho => exact .ok rfl
  next =>
    split
    next => exact folds_scanComparison c cs
    next => exact .error rfl

theorem folds_scanFrom (wantsOperand : Bool) (cs : List Char) :
    Folds (fun ts ts' => ts' = ts.map Token.fold) (scanFrom phrase wantsOperand cs)
      (scanFrom phrase wantsOperand (Text.fold cs)) := by
  induction hn : cs.length using Nat.strongRecOn generalizing cs wantsOperand with | _ n ih =>
  subst hn
  have hskip := Text.dropWhile_fold Text.caseBlind_isAsciiBlank cs
  have hblanks := Text.length_dropWhile_le isAsciiBlank cs
  generalize hy : scanFrom phrase wantsOperand (Text.fold cs) = y
  rw [scanFrom]
  split
  next hnil =>
    rw [hnil] at hskip
    rw [← hy, scanFrom]
    split
    next => exact .ok rfl
    next hcons => cases hskip.symm.trans hcons
  next c rest hcons =>
    rw [hcons] at hskip hblanks
    rw [← hy, scanFrom]
    split
    next hnil => cases hskip.symm.trans hnil
    next c' rest' hcons' =>
      obtain ⟨rfl, rfl⟩ := List.cons.inj (hskip.symm.trans hcons')
      refine .bind (folds_scanToken wantsOperand c rest) fun a b h => ?_
      obtain ⟨token, after, hafter⟩ := a
      obtain ⟨token', after', hafter'⟩ := b
      obtain ⟨rfl, rfl⟩ : token' = token.fold ∧ after' = Text.fold after := Prod.mk.inj h
      dsimp only
      rw [Token.isOperator_fold]
      refine .bind (ih _ (Nat.lt_of_le_of_lt hafter hblanks) _ _ rfl) fun tokens tokens' h => ?_
      exact .ok (by rw [h, List.map_cons])

theorem checkAlternation_fold (wantsOperand : Bool) (ts : List Token) :
    checkAlternation wantsOperand (ts.map Token.fold) =
      (checkAlternation wantsOperand ts).mapError ArithmeticFault.fold := by
  induction ts generalizing wantsOperand with
  | nil => cases wantsOperand <;> rfl
  | cons t ts ih => cases wantsOperand <;> cases t <;> first | exact ih _ | rfl

theorem folds_check (phrase : Phrase) (ts : List Token) :
    Folds Eq (check phrase ts) (check phrase (ts.map Token.fold)) := by
  rw [check, check, checkAlternation_fold]
  cases checkAlternation true ts with
  | ok => exact .ok rfl
  | error fault => exact .error rfl

theorem folds_parse (cs : List Char) :
    Folds (fun ts ts' => ts' = ts.map Token.fold) (parse cs) (parse (Text.fold cs)) := by
  refine .bind (folds_scanFrom true cs) fun ts ts' h => ?_
  subst h
  cases ts with
  | nil => exact .ok rfl
  | cons t ts => exact .bind (folds_check _ (t :: ts)) fun _ _ _ => .ok rfl

end Expression

namespace Condition

theorem split_map (ts : List Token) :
    split (ts.map Token.fold) = ((split ts).1.map Token.fold, (split ts).2.map Token.fold) := by
  rw [split, List.takeWhile_map, List.dropWhile_map, Token.not_isComparison_comp_fold,
    ← List.map_drop, split]

theorem folds_parse (cs : List Char) :
    Folds (fun ts ts' => ts' = ts.map Token.fold) (parse cs) (parse (Text.fold cs)) := by
  refine .bind (Expression.folds_scanFrom true cs) fun ts ts' h => ?_
  subst h
  dsimp only
  rw [List.countP_map, Token.isComparison_comp_fold, split_map]
  simp only [List.map_eq_nil_iff]
  split
  next => exact .error rfl
  split
  next => exact .error rfl
  next =>
    split
    next => exact .error rfl
    refine .bind (Expression.folds_check _ _) fun _ _ _ => ?_
    exact .bind (Expression.folds_check _ _) fun _ _ _ => .ok rfl
  next => exact .error rfl

end Condition

end PatternScript
