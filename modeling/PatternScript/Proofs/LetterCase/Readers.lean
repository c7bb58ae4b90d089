import PatternScript.Proofs.Agreement
import PatternScript.Proofs.LetterCase.Texts
import PatternScript.Script.Reading

/-!
# Readers and the case of letters

What is read of a folded text is what is read of the text, folded: its texts and the texts in
the cause of a refusal. Names of keys, variables and commands are in upper case anyway.
-/
namespace PatternScript

open Text (fold foldString CaseBlind isAsciiBlank)

section Folding

def Token.fold : Token → Token
  | text s => text (foldString s)
  | int n => int n
  | var v => var v
  | op o => op o
  | compare r => compare r

def ArgumentFault.fold : ArgumentFault → ArgumentFault
  | emptyKey near => emptyKey (foldString near)
  | f => f

def ArithmeticFault.fold : ArithmeticFault → ArithmeticFault
  | strayCharacter c => strayCharacter c.toUpper
  | operandExpected t => operandExpected t.fold
  | operatorExpected t => operatorExpected t.fold
  | f => f

def ParseCause.fold : ParseCause → ParseCause
  | argument f => argument f.fold
  | afterCount rest => afterCount (foldString rest)
  | countKind found => countKind (foldString found)
  | variableName written => variableName (foldString written)
  | arithmetic phrase f => arithmetic phrase f.fold
  | patternTooLarge name w h => patternTooLarge (foldString name) w h
  | patternTaken name => patternTaken (foldString name)
  | cause => cause

@[simp] theorem ParseCause.code_fold (cause : ParseCause) : cause.fold.code = cause.code := by
  cases cause <;> rfl

end Folding

/-- A folded result, or a refusal for the folded cause. -/
abbrev Folds {α β : Type} (R : α → β → Prop) (x : Except ParseCause α) (y : Except ParseCause β) :
    Prop :=
  Agrees (fun cause folded => folded = cause.fold) R x y

def foldRead {α β : Type} (f : α → β) : Except ParseCause α → Except ParseCause β
  | .ok a => .ok (f a)
  | .error cause => .error cause.fold

theorem folds_iff {α β : Type} {f : α → β} {x : Except ParseCause α} {y : Except ParseCause β} :
    Folds (fun a b => b = f a) x y ↔ y = foldRead f x := by
  constructor
  · intro h
    cases h with
    | ok ha => rw [ha]; rfl
    | error he => rw [he]; rfl
  · rintro rfl
    cases x with
    | ok a => exact .ok rfl
    | error cause => exact .error rfl

def plain {α : Type} {P : List Char → Prop} (found : α × { rest // P rest }) : α × List Char :=
  (found.1, found.2.1)

abbrev FoldsFound {α : Type} {P Q : List Char → Prop} (f : α → α) (a : α × { rest // P rest })
    (b : α × { rest // Q rest }) : Prop :=
  plain b = (f a.1, fold a.2.1)

section Words

variable {name written word : List Char}

theorem splitKeyword_fold (line : List Char) :
    splitKeyword (fold line) = ((splitKeyword line).1, fold (splitKeyword line).2) := by
  have hblind := Text.caseBlind_isAsciiBlank.not
  rw [splitKeyword, Text.takeWhile_fold hblind, Text.dropWhile_fold hblind, Text.upper_fold,
    Text.trim_fold, splitKeyword]

theorem folds_ofName (name written : List Char) (negated : Bool) :
    Folds (fun v v' => v' = v) (VarRef.ofName name negated written)
      (VarRef.ofName (fold name) negated (fold written)) := by
  rw [VarRef.ofName, VarRef.ofName, Text.isIdentifier_fold, Text.upper_fold]
  split
  · exact .ok rfl
  · exact .error (by rw [ParseCause.fold, Text.foldString_ofList])

theorem folds_ofDigits (written : List Char) :
    Folds (fun t t' => t' = t.fold) (Token.ofDigits written) (Token.ofDigits written) := by
  rw [Token.ofDigits]
  split
  · exact .ok rfl
  · exact .error rfl

theorem ofWord_minus {rest : List Char} (h : ∀ name, rest ≠ '$' :: name) :
    Token.ofWord ('-' :: rest) =
      if Text.isDigits rest then Token.ofDigits ('-' :: rest)
      else .ok (.text (String.ofList ('-' :: rest))) := by
  rw [Token.ofWord]
  exact h

theorem ofWord_plain (hdollar : ∀ name, word ≠ '$' :: name) (hminus : ∀ rest, word ≠ '-' :: rest) :
    Token.ofWord word =
      if Text.isDigits word then Token.ofDigits word else .ok (.text (String.ofList word)) := by
  rw [Token.ofWord]
  · exact hdollar
  · exact fun name => hminus _
  · exact hminus

theorem folds_ofBare {digits : List Char} (h : Text.isDigits digits = true → fold word = word) :
    Folds (fun t t' => t' = t.fold)
      (if Text.isDigits digits then Token.ofDigits word else .ok (.text (String.ofList word)))
      (if Text.isDigits (fold digits) then Token.ofDigits (fold word)
        else .ok (.text (String.ofList (fold word)))) := by
  rw [Text.isDigits_fold]
  split
  next hdigits =>
    rw [h hdigits]
    exact folds_ofDigits word
  next => exact .ok (by rw [Token.fold, Text.foldString_ofList])

theorem folds_ofWord (word : List Char) :
    Folds (fun t t' => t' = t.fold) (Token.ofWord word) (Token.ofWord (fold word)) := by
  by_cases hdollar : ∃ name, word = '$' :: name
  · obtain ⟨name, rfl⟩ := hdollar
    exact .bind (folds_ofName name _ false) fun v v' h => .ok (by rw [h]; rfl)
  by_cases hminus : ∃ rest, word = '-' :: rest
  · obtain ⟨rest, rfl⟩ := hminus
    by_cases hname : ∃ name, rest = '$' :: name
    · obtain ⟨name, rfl⟩ := hname
      exact .bind (folds_ofName name _ true) fun v v' h => .ok (by rw [h]; rfl)
    · have hplain := not_exists.1 hname
      have hfold : Token.ofWord (fold ('-' :: rest)) = _ :=
        ofWord_minus (Text.fold_ne_cons (by decide) hplain)
      rw [ofWord_minus hplain, hfold]
      refine folds_ofBare fun hdigits => ?_
      rw [Text.fold_cons, Text.fold_of_isDigits hdigits]
      rfl
  · have hdollar := not_exists.1 hdollar
    have hminus := not_exists.1 hminus
    rw [ofWord_plain hdollar hminus, ofWord_plain (Text.fold_ne_cons (by decide) hdollar)
      (Text.fold_ne_cons (by decide) hminus)]
    exact folds_ofBare Text.fold_of_isDigits

end Words

namespace NameMap

variable {α β : Type}

theorem lookup_map (f : α → β) (name : String) (es : List (String × α)) :
    (es.map fun e => (e.1, f e.2)).lookup name = (es.lookup name).map f := by
  induction es with
  | nil => rfl
  | cons e es ih =>
    rw [List.map_cons, List.lookup_cons, List.lookup_cons, ih]
    cases name == e.1 <;> rfl

theorem setEntry_map (f : α → β) (name : String) (value : α) (es : List (String × α)) :
    setEntry name (f value) (es.map fun e => (e.1, f e.2)) =
      (setEntry name value es).map fun e => (e.1, f e.2) := by
  fun_induction setEntry name value es with
  | case1 => rfl
  | case2 e rest hlt => rw [List.map_cons, setEntry, if_pos hlt]; rfl
  | case3 e rest hlt heq => rw [List.map_cons, setEntry, if_neg hlt, if_pos heq]; rfl
  | case4 e rest hlt hne ih => rw [List.map_cons, setEntry, if_neg hlt, if_neg hne, ih]; rfl

def map (f : α → β) (m : NameMap α) : NameMap β where
  entries := m.entries.map fun e => (e.1, f e.2)
  sorted := List.pairwise_map.2 m.sorted

@[simp] theorem get?_map (f : α → β) (m : NameMap α) (name : String) :
    (m.map f).get? name = (m.get? name).map f := lookup_map f name m.entries

@[simp] theorem contains_map (f : α → β) (m : NameMap α) (name : String) :
    (m.map f).contains name = m.contains name := by
  rw [contains, get?_map, Option.isSome_map, contains]

theorem set_map (f : α → β) (m : NameMap α) (name : String) (value : α) :
    (m.map f).set name (f value) = (m.set name value).map f := by
  exact eq_of_entries (setEntry_map f name value m.entries)

@[simp] theorem values_map (f : α → β) (m : NameMap α) : (m.map f).values = m.values.map f := by
  simp [values, map]

end NameMap

namespace Arguments

variable {cs : List Char} {key : String}

def fold (args : Arguments) : Arguments := args.map Token.fold

theorem skipBlanks_fold (cs : List Char) : skipBlanks (Text.fold cs) = Text.fold (skipBlanks cs) :=
  Text.dropWhile_fold Text.caseBlind_isAsciiBlank cs

theorem readQuoted_fold (read cs : List Char) :
    readQuoted (Text.fold read) (Text.fold cs) =
      (readQuoted read cs).map fun parts => (Text.fold parts.1, Text.fold parts.2) := by
  have hquote (c : Char) : c.toUpper = '"' ↔ c = '"' := Text.toUpper_eq_iff (by decide)
  have hslash (c : Char) : c.toUpper = '\\' ↔ c = '\\' := Text.toUpper_eq_iff (by decide)
  fun_induction readQuoted read cs with
  | case1 => rfl
  | case2 read rest => cases rest <;> simp [readQuoted, Text.fold_reverse]
  | case3 => simp [readQuoted]
  | case4 read d tail hmark h ih => simp [readQuoted, hquote, hslash, hmark, ← ih]
  | case5 read d tail hmark h ih => simp [readQuoted, hquote, hslash, hmark, ← ih]
  | case6 read c rest hq hs ih => cases rest <;> simp [readQuoted, hquote, hslash, hq, hs, ← ih]

section Values

variable (key) in
theorem readValue_nil (h : skipBlanks cs = []) :
    readValue key cs = .error (.argument (.missingValue key)) := by
  unfold readValue
  split
  next => rfl
  next hbody => cases h.symm.trans hbody
  next hne _ => exact absurd h hne

variable (key) in
theorem readValue_quote {body : List Char} (h : skipBlanks cs = '"' :: body) :
    plain <$> readValue key cs = match readQuoted [] body with
      | none => .error (.argument (.unterminatedText key))
      | some (text, rest) =>
        if rest.head?.all isAsciiBlank then .ok (.text (String.ofList text), rest)
        else .error (.argument (.textNotSeparated key)) := by
  unfold readValue
  split
  next hnil => cases h.symm.trans hnil
  next body' hbody =>
    obtain rfl : body = body' := (List.cons.inj (h.symm.trans hbody)).2
    split
    next hnone => rw [hnone]; rfl
    next hsome =>
      simp only [hsome]
      split <;> rfl
  next hquote => exact absurd h (hquote body)

variable (key) in
theorem readValue_word (hne : skipBlanks cs ≠ []) (hquote : ∀ body, skipBlanks cs ≠ '"' :: body) :
    plain <$> readValue key cs =
      (fun token => (token, (skipBlanks cs).dropWhile (!isAsciiBlank ·))) <$>
        Token.ofWord ((skipBlanks cs).takeWhile (!isAsciiBlank ·)) := by
  unfold readValue
  split
  next hnil => exact absurd hnil hne
  next hbody => exact absurd hbody (hquote _)
  next => cases Token.ofWord ((skipBlanks cs).takeWhile (!isAsciiBlank ·)) <;> rfl

end Values

theorem folds_readValue (key : String) (cs : List Char) :
    Folds (FoldsFound Token.fold) (readValue key cs) (readValue key (Text.fold cs)) := by
  have hskip := skipBlanks_fold cs
  suffices hplain : Folds (fun a b => b = (a.1.fold, Text.fold a.2)) (plain <$> readValue key cs)
      (plain <$> readValue key (Text.fold cs)) from hplain.of_map plain plain
  by_cases hnil : skipBlanks cs = []
  · rw [hnil] at hskip
    rw [readValue_nil key hnil, readValue_nil key hskip]
    exact .error rfl
  by_cases hquote : ∃ body, skipBlanks cs = '"' :: body
  · obtain ⟨body, hbody⟩ := hquote
    have hread := readQuoted_fold [] body
    rw [Text.fold_nil] at hread
    replace hskip : skipBlanks (Text.fold cs) = '"' :: Text.fold body := by rw [hskip, hbody]; rfl
    rw [readValue_quote key hbody, readValue_quote key hskip, hread]
    cases readQuoted [] body with
    | none => exact .error rfl
    | some parts =>
      dsimp only [Option.map_some]
      rw [Text.head?_fold_all Text.caseBlind_isAsciiBlank]
      split
      · exact .ok (Prod.ext (by rw [Token.fold, Text.foldString_ofList]) rfl)
      · exact .error rfl
  · have hblind := Text.caseBlind_isAsciiBlank.not
    have hword := not_exists.1 hquote
    rw [readValue_word key hnil hword, readValue_word key (by rw [hskip]; simpa) (by
      rw [hskip]; exact Text.fold_ne_cons (by decide) hword), hskip,
      Text.takeWhile_fold hblind, Text.dropWhile_fold hblind]
    exact .map (folds_ofWord _) fun token token' h => by rw [h]

theorem caseBlind_inKey : CaseBlind fun c => c != '=' && !isAsciiBlank c :=
  (Text.caseBlind_beq (by decide)).not.and Text.caseBlind_isAsciiBlank.not

theorem folds_readArgument (cs : List Char) :
    Folds (FoldsFound fun a => (a.1, a.2.fold)) (readArgument cs)
      (readArgument (Text.fold cs)) := by
  have hskip := skipBlanks_fold (cs.dropWhile fun c => c != '=' && !isAsciiBlank c)
  rw [← Text.dropWhile_fold caseBlind_inKey] at hskip
  unfold readArgument
  dsimp only
  rw [Text.takeWhile_fold caseBlind_inKey, Text.upper_fold]
  simp only [Text.fold_eq_nil_iff]
  split
  next => exact .error (by rw [ParseCause.fold, ArgumentFault.fold, Text.foldString_ofList])
  next =>
    split
    next after hafter =>
      rw [hafter] at hskip
      split
      next after' hafter' =>
        obtain rfl : Text.fold after = after' := (List.cons.inj (hskip.symm.trans hafter')).2
        refine .bind (folds_readValue _ after) fun a b h => ?_
        have hboth := Prod.mk.inj h
        exact .ok (Prod.ext (congrArg (Prod.mk _) hboth.1) hboth.2)
      next hother => exact absurd hskip (hother _)
    next hother =>
      have hother' := Text.fold_ne_cons (by decide) hother
      rw [← hskip] at hother'
      split
      next hafter => exact absurd hafter (hother' _)
      next => exact .error rfl

theorem folds_readInto (read : Arguments) (cs : List Char) :
    Folds (fun args args' => args' = args.fold) (readInto read cs)
      (readInto read.fold (Text.fold cs)) := by
  induction hn : cs.length using Nat.strongRecOn generalizing cs read with | _ n ih =>
  subst hn
  have hskip := skipBlanks_fold cs
  have hblanks := length_skipBlanks_le cs
  -- The reader of the folded text is opened only after the other: its recursive calls have the
  -- same name.
  generalize hy : readInto read.fold (Text.fold cs) = y
  rw [readInto]
  split
  next hnil =>
    rw [hnil] at hskip
    rw [← hy, readInto]
    split
    next => exact .ok rfl
    next hcons => cases hskip.symm.trans hcons
  next c rest hcons =>
    rw [hcons] at hskip hblanks
    rw [← hy, readInto]
    split
    next hnil => cases hskip.symm.trans hnil
    next c' rest' hcons' =>
      obtain ⟨rfl, rfl⟩ := List.cons.inj (hskip.symm.trans hcons')
      refine .bind (folds_readArgument (c :: rest)) fun a b h => ?_
      obtain ⟨⟨key, token⟩, after, hafter⟩ := a
      obtain ⟨⟨key', token'⟩, after', hafter'⟩ := b
      cases h
      dsimp only
      rw [fold, NameMap.contains_map]
      split
      next => exact .error rfl
      next =>
        rw [NameMap.set_map]
        exact ih _ (Nat.lt_of_lt_of_le hafter hblanks) _ _ rfl

theorem folds_parse (cs : List Char) :
    Folds (fun args args' => args' = args.fold) (parse cs) (parse (Text.fold cs)) :=
  folds_readInto .empty cs

end Arguments

end PatternScript
