import PatternScript.Proofs.Printing.Capitals
import PatternScript.Proofs.Printing.Cutting
import PatternScript.Text.Basic
import PatternScript.Script.Token

/-!
# Folding the case of letters

Folding puts the ASCII letters of a text in upper case and leaves everything else as it is. A
property of characters is blind to case when folding does not change it; what is cut off a text
by such a property can be folded before or after the cut.
-/
namespace PatternScript.Text

variable {p q : Char → Bool} {c mark : Char} {cs cs' : List Char}

def fold (cs : List Char) : List Char := cs.map Char.toUpper

def foldString (s : String) : String := String.ofList (fold s.toList)

@[simp] theorem foldString_ofList (cs : List Char) :
    foldString (String.ofList cs) = String.ofList (fold cs) := by
  rw [foldString, String.toList_ofList]

@[simp] theorem fold_nil : fold [] = [] := rfl

@[simp] theorem fold_cons (c : Char) (cs : List Char) : fold (c :: cs) = c.toUpper :: fold cs := rfl

@[simp] theorem fold_append (cs cs' : List Char) : fold (cs ++ cs') = fold cs ++ fold cs' :=
  List.map_append

@[simp] theorem length_fold (cs : List Char) : (fold cs).length = cs.length := List.length_map _

@[simp] theorem fold_eq_nil_iff : fold cs = [] ↔ cs = [] := List.map_eq_nil_iff

@[simp] theorem toUpper_toUpper (c : Char) : c.toUpper.toUpper = c.toUpper := by
  have hupper := toNat_toUpper c
  rw [← Char.toNat_inj, toNat_toUpper c.toUpper]
  split at hupper <;> split <;> omega

theorem toUpper_eq_iff (hmark : mark.isAlpha = false) : c.toUpper = mark ↔ c = mark := by
  rw [Bool.eq_false_iff, ne_eq, isAlpha_iff] at hmark
  rw [← Char.toNat_inj, ← Char.toNat_inj, toNat_toUpper]
  split <;> omega

theorem fold_ne_cons (hmark : mark.isAlpha = false) (h : ∀ rest, cs ≠ mark :: rest) :
    ∀ rest, fold cs ≠ mark :: rest := by
  intro rest hfold
  cases cs with
  | nil => cases hfold
  | cons c cs =>
    rw [fold_cons, List.cons.injEq, toUpper_eq_iff hmark] at hfold
    exact h cs (by rw [hfold.1])

section Blind

def CaseBlind (p : Char → Bool) : Prop := ∀ c : Char, p c.toUpper = p c

theorem CaseBlind.not (hp : CaseBlind p) : CaseBlind (!p ·) := fun c => congrArg Bool.not (hp c)

theorem CaseBlind.and (hp : CaseBlind p) (hq : CaseBlind q) : CaseBlind fun c => p c && q c :=
  fun c => congrArg₂ Bool.and (hp c) (hq c)

theorem CaseBlind.or (hp : CaseBlind p) (hq : CaseBlind q) : CaseBlind fun c => p c || q c :=
  fun c => congrArg₂ Bool.or (hp c) (hq c)

theorem caseBlind_beq (hmark : mark.isAlpha = false) : CaseBlind (· == mark) := by
  intro c
  rw [Bool.eq_iff_iff, beq_iff_eq, beq_iff_eq, toUpper_eq_iff hmark]

theorem caseBlind_isBlank : CaseBlind isBlank := by
  intro c
  rw [Bool.eq_iff_iff]
  simp only [isBlank, toNat_toUpper, Bool.or_eq_true, Bool.and_eq_true, beq_iff_eq,
    decide_eq_true_eq]
  split <;> omega

theorem caseBlind_isAsciiBlank : CaseBlind isAsciiBlank :=
  ((((caseBlind_beq (by decide)).or (caseBlind_beq (by decide))).or (caseBlind_beq (by decide))).or
    (caseBlind_beq (by decide))).or (caseBlind_beq (by decide))

theorem caseBlind_isAlpha : CaseBlind Char.isAlpha := by
  intro c
  rw [Bool.eq_iff_iff, isAlpha_iff, isAlpha_iff, toNat_toUpper]
  split <;> omega

theorem caseBlind_isDigit : CaseBlind Char.isDigit := by
  intro c
  rw [Bool.eq_iff_iff, isDigit_iff, isDigit_iff, toNat_toUpper]
  split <;> omega

theorem caseBlind_isAlphanum : CaseBlind Char.isAlphanum := caseBlind_isAlpha.or caseBlind_isDigit

end Blind

section Cutting

theorem takeWhile_fold (hp : CaseBlind p) (cs : List Char) :
    (fold cs).takeWhile p = fold (cs.takeWhile p) := by
  rw [fold, List.takeWhile_map, show p ∘ Char.toUpper = p from funext hp, fold]

theorem dropWhile_fold (hp : CaseBlind p) (cs : List Char) :
    (fold cs).dropWhile p = fold (cs.dropWhile p) := by
  rw [fold, List.dropWhile_map, show p ∘ Char.toUpper = p from funext hp, fold]

theorem all_fold (hp : CaseBlind p) (cs : List Char) : (fold cs).all p = cs.all p := by
  rw [fold, List.all_map, show p ∘ Char.toUpper = p from funext hp]

theorem any_fold (hp : CaseBlind p) (cs : List Char) : (fold cs).any p = cs.any p := by
  rw [fold, List.any_map, show p ∘ Char.toUpper = p from funext hp]

theorem head?_fold_any (hp : CaseBlind p) (cs : List Char) :
    (fold cs).head?.any p = cs.head?.any p := by
  cases cs with
  | nil => rfl
  | cons c cs => exact hp c

theorem head?_fold_all (hp : CaseBlind p) (cs : List Char) :
    (fold cs).head?.all p = cs.head?.all p := by
  cases cs with
  | nil => rfl
  | cons c cs => exact hp c

theorem fold_reverse (cs : List Char) : (fold cs).reverse = fold cs.reverse := List.map_reverse.symm

theorem take_fold (n : Nat) (cs : List Char) : (fold cs).take n = fold (cs.take n) :=
  List.map_take.symm

theorem drop_fold (n : Nat) (cs : List Char) : (fold cs).drop n = fold (cs.drop n) :=
  List.map_drop.symm

theorem getLast?_fold_all (hp : CaseBlind p) (cs : List Char) :
    (fold cs).getLast?.all p = cs.getLast?.all p := by
  rw [← List.head?_reverse, fold_reverse, head?_fold_all hp, List.head?_reverse]

theorem trimStart_fold (cs : List Char) : trimStart (fold cs) = fold (trimStart cs) :=
  dropWhile_fold caseBlind_isBlank cs

theorem trimEnd_fold (cs : List Char) : trimEnd (fold cs) = fold (trimEnd cs) := by
  rw [trimEnd, fold_reverse, dropWhile_fold caseBlind_isBlank, fold_reverse, trimEnd]

theorem trim_fold (cs : List Char) : trim (fold cs) = fold (trim cs) := by
  rw [trim, trimStart_fold, trimEnd_fold, trim]

theorem words_fold (cs : List Char) : words (fold cs) = (words cs).map fold := by
  induction hn : cs.length using Nat.strongRecOn generalizing cs with | _ n ih =>
  subst hn
  have hskip := dropWhile_fold caseBlind_isBlank cs
  have hblanks := length_dropWhile_le isBlank cs
  cases hcs : cs.dropWhile isBlank with
  | nil =>
    rw [hcs] at hskip
    rw [words_of_nil hcs, words_of_nil hskip, List.map_nil]
  | cons c rest =>
    have hrest := length_dropWhile_le (!isBlank ·) rest
    rw [hcs, List.length_cons] at hblanks
    rw [hcs, fold_cons] at hskip
    rw [words_of_cons hcs, words_of_cons hskip, takeWhile_fold caseBlind_isBlank.not,
      dropWhile_fold caseBlind_isBlank.not, ih _ (by omega) _ rfl, List.map_cons, fold_cons]

theorem cut?_fold (hmark : mark.isAlpha = false) (cs : List Char) :
    cut? mark (fold cs) = (cut? mark cs).map fun parts => (fold parts.1, fold parts.2) := by
  have hblind : CaseBlind (· != mark) := (caseBlind_beq hmark).not
  rw [cut?, cut?, takeWhile_fold hblind, dropWhile_fold hblind]
  cases cs.dropWhile (· != mark) with
  | nil => rfl
  | cons c rest => rfl

theorem foldString_intercalate (words : List (List Char)) :
    foldString (" ".intercalate (words.map String.ofList)) =
      " ".intercalate ((words.map fold).map String.ofList) := by
  have hlist (words : List (List Char)) :
      (" ".intercalate (words.map String.ofList)).toList = [' '].intercalate words := by
    simp [String.toList_intercalate]
  rw [foldString, ← String.toList_inj, String.toList_ofList, hlist, hlist]
  cases words with
  | nil => rfl
  | cons word words =>
    have hrest : fold (words.flatMap (' ' :: ·)) = words.flatMap (' ' :: fold ·) :=
      List.map_flatMap
    rw [List.map_cons, intercalate_cons, intercalate_cons, fold_append, List.flatMap_map, hrest]

theorem isEmpty_foldString (s : String) : (foldString s).isEmpty = s.isEmpty := by
  rw [Bool.eq_iff_iff, String.isEmpty_iff, String.isEmpty_iff, foldString,
    String.ofList_eq_empty_iff, fold_eq_nil_iff, String.toList_eq_nil_iff]

end Cutting

section Capitals

theorem upperChar_toUpper (c : Char) : upperChar c.toUpper = upperChar c := by
  by_cases hc : 97 ≤ c.toNat ∧ c.toNat ≤ 122
  · have hupper := toNat_toUpper c
    rw [if_pos hc] at hupper
    rw [upperChar_of_ascii (by omega), upperChar_of_ascii (by omega), toUpper_toUpper]
  · rw [toUpper_of_not_small (by omega)]

theorem upper_fold (cs : List Char) : upper (fold cs) = upper cs := by
  rw [upper, fold, List.flatMap_map]
  simp only [upperChar_toUpper]
  rfl

theorem sameAscii_fold (cs cs' : List Char) : sameAscii (fold cs) cs' = sameAscii cs cs' := by
  simp [sameAscii, fold, Function.comp_def]

theorem fold_eq_of_sameAscii (h : sameAscii cs cs' = true) : fold cs = fold cs' := by
  rwa [sameAscii, beq_iff_eq] at h

theorem isIdentifier_fold (cs : List Char) : isIdentifier (fold cs) = isIdentifier cs := by
  cases cs with
  | nil => rfl
  | cons c cs =>
    rw [fold_cons, isIdentifier, isIdentifier, caseBlind_isAlpha,
      all_fold (caseBlind_isAlphanum.or (caseBlind_beq (by decide)))]

end Capitals

section Numbers

theorem isDigits_fold (cs : List Char) : isDigits (fold cs) = isDigits cs := by
  rw [isDigits, all_fold caseBlind_isDigit, isDigits]
  cases cs <;> rfl

theorem fold_eq_self (h : ∀ c ∈ cs, c.isAlpha = false) : fold cs = cs := by
  rw [fold, List.map_congr_left fun c hc => (toUpper_eq_iff (h c hc)).2 rfl, List.map_id']

theorem isAlpha_eq_false_of_isDigit (h : c.isDigit = true) : c.isAlpha = false := by
  rw [isDigit_iff] at h
  rw [Bool.eq_false_iff, ne_eq, isAlpha_iff]
  omega

theorem fold_of_isDigits {digits : List Char} (h : isDigits digits = true) :
    fold digits = digits := by
  rw [isDigits, Bool.and_eq_true, List.all_eq_true] at h
  exact fold_eq_self fun c hc => isAlpha_eq_false_of_isDigit (h.2 c hc)

end Numbers

end PatternScript.Text
