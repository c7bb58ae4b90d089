import PatternScript.Proofs.LetterCase.Phrases

/-!
# Headers and the case of letters

The readers of the commands with a form of their own, which look for keywords in any case.
-/
namespace PatternScript

open Text (foldString)

variable {declared : List String} {args : List Char}

namespace Token

theorem folds_checkDeclared (declared : List String) (t : Token) :
    Folds Eq (checkDeclared declared t) (checkDeclared declared t.fold) := by
  cases t with
  | var v =>
    rw [fold, checkDeclared]
    split
    · exact .ok rfl
    · exact .error rfl
  | _ => exact .ok rfl

theorem folds_checkAllDeclared (declared : List String) (ts : List Token) :
    Folds Eq (checkAllDeclared declared ts) (checkAllDeclared declared (ts.map fold)) := by
  induction ts with
  | nil => exact .ok rfl
  | cons t ts ih => exact .bind (folds_checkDeclared declared t) fun _ _ _ => ih

end Token

theorem Arguments.folds_parseDeclared (declared : List String) (args : List Char) :
    Folds (fun a b => b = a.fold) (parseDeclared declared args)
      (parseDeclared declared (Text.fold args)) := by
  refine .bind (folds_parse args) fun a b h => ?_
  subst h
  have hdeclared := Token.folds_checkAllDeclared declared a.values
  rw [← NameMap.values_map] at hdeclared
  exact .bind hdeclared fun _ _ _ => .ok rfl

theorem Expression.folds_parseDeclared (declared : List String) (args : List Char) :
    Folds (fun ts ts' => ts' = ts.map Token.fold) (parseDeclared declared args)
      (parseDeclared declared (Text.fold args)) := by
  refine .bind (folds_parse args) fun ts ts' h => ?_
  subst h
  exact .bind (Token.folds_checkAllDeclared declared ts) fun _ _ _ => .ok rfl

def Action.fold : Action → Action
  | declare name init => declare name (init.map Token.fold)
  | assign name value => assign name (value.map Token.fold)
  | color args => color args.fold
  | fill args => fill args.fold
  | resetTransforms => resetTransforms
  | translate args => translate args.fold
  | rotate args => rotate args.fold
  | scale args => scale args.fold
  | draw shape args => draw shape args.fold

namespace Declaration

theorem fullName_fold (bare : List Char) : fullName (Text.fold bare) = fullName bare := by
  rw [fullName, Text.upper_fold, fullName]

theorem variableName_fold (bare : List Char) :
    ParseCause.variableName (String.ofList ('$' :: Text.fold bare)) =
      (ParseCause.variableName (String.ofList ('$' :: bare))).fold := by
  rw [ParseCause.fold, Text.foldString_ofList]
  rfl

theorem folds_readVar (declared : List String) (args : List Char) :
    Folds (fun a b => b = (a.1, foldRead (List.map Token.fold) a.2)) (readVar declared args)
      (readVar declared (Text.fold args)) := by
  by_cases hdollar : ∃ rest, args = '$' :: rest
  · obtain ⟨rest, rfl⟩ := hdollar
    have hcut : Text.cut? '=' (Text.fold rest) = _ := Text.cut?_fold (by decide) rest
    unfold readVar
    cases h : Text.cut? '=' rest with
    | none =>
      rw [h, Option.map_none] at hcut
      simp only [Text.fold_cons, h, hcut, show '$'.toUpper = '$' from rfl, Text.trim_fold,
        Text.any_fold Text.caseBlind_isAsciiBlank, Text.isIdentifier_fold, fullName_fold]
      refine .throwIf .rfl rfl (.throwIf .rfl (variableName_fold _) ?_)
      exact .throwIf .rfl rfl (.throwIf .rfl rfl (.ok rfl))
    | some parts =>
      rw [h, Option.map_some] at hcut
      simp only [Text.fold_cons, h, hcut, show '$'.toUpper = '$' from rfl, Text.trim_fold,
        Text.any_fold Text.caseBlind_isAsciiBlank, Text.isIdentifier_fold, fullName_fold]
      refine .throwIf .rfl rfl (.throwIf .rfl (variableName_fold _) ?_)
      refine .throwIf .rfl rfl (.throwIf .rfl rfl (.ok ?_))
      cases Text.trim parts.2 with
      | nil => rfl
      | cons c init =>
        exact congrArg (Prod.mk _)
          (folds_iff.1 (Expression.folds_parseDeclared declared (c :: init)))
  · have hother := not_exists.1 hdollar
    rw [readVar_of_noDollar declared hother,
      readVar_of_noDollar declared (Text.fold_ne_cons (by decide) hother)]
    exact .error rfl

theorem folds_readLet (declared : List String) (args : List Char) :
    Folds (fun a b => b = a.fold) (readLet declared args) (readLet declared (Text.fold args)) := by
  have hfold : Text.cut? '=' (Text.fold args) = _ := Text.cut?_fold (by decide) args
  cases hcut : Text.cut? '=' args with
  | none =>
    rw [hcut] at hfold
    rw [readLet, readLet, hcut, hfold]
    exact .error rfl
  | some parts =>
    obtain ⟨before, after⟩ := parts
    rw [hcut, Option.map_some] at hfold
    by_cases hdollar : ∃ bare, Text.trim before = '$' :: bare
    · obtain ⟨bare, hbare⟩ := hdollar
      rw [readLet, readLet, hcut, hfold]
      simp only [Text.trim_fold, hbare, Text.fold_cons, show '$'.toUpper = '$' from rfl,
        Text.isIdentifier_fold, fullName_fold, Text.fold_eq_nil_iff]
      refine .throwIf .rfl (variableName_fold bare) (.throwIf .rfl rfl ?_)
      refine .throwIf .rfl rfl (.throwIf .rfl rfl ?_)
      exact .bind (Expression.folds_parseDeclared declared _) fun ts ts' h => .ok (congrArg _ h)
    · have hother := not_exists.1 hdollar
      have hother' := Text.fold_ne_cons (by decide) hother
      rw [← Text.trim_fold] at hother'
      rw [readLet_of_noDollar declared hcut hother, readLet_of_noDollar declared hfold hother']
      exact .error rfl

theorem folds_readCount (declared : List String) (args : List Char) :
    Folds (fun a b => b = a.fold) (readCount declared args)
      (readCount declared (Text.fold args)) := by
  have hfold : Text.trimStart ((Text.fold args).drop 5) =
      Text.fold (Text.trimStart (args.drop 5)) := by
    rw [Text.drop_fold, Text.trimStart_fold]
  by_cases hequals : ∃ rest, Text.trimStart (args.drop 5) = '=' :: rest
  · obtain ⟨rest, hrest⟩ := hequals
    unfold readCount
    rw [Text.take_fold, Text.sameAscii_fold, hfold, hrest]
    refine .throwIf .rfl rfl ?_
    simp only [Text.fold_cons, show '='.toUpper = '=' from rfl, Text.words_fold]
    cases Text.words rest with
    | nil => exact .error rfl
    | cons word trailing =>
      have hcount : Folds (fun a b => b = a.fold)
          (do
            let count ← Token.ofWord word
            if !count.isOperand then throw (.countKind (String.ofList word))
            count.checkDeclared declared
            return count)
          (do
            let count ← Token.ofWord (Text.fold word)
            if !count.isOperand then throw (.countKind (String.ofList (Text.fold word)))
            count.checkDeclared declared
            return count) := by
        refine .bind (folds_ofWord word) fun count count' h => ?_
        subst h
        refine .throwIf (by rw [Token.isOperand_fold]) ?_ ?_
        · rw [ParseCause.fold, Text.foldString_ofList]
        · exact .bind (Token.folds_checkDeclared declared count) fun _ _ _ => .ok rfl
      have hextra (extra : List (List Char)) :
          ParseCause.afterCount (" ".intercalate ((extra.map Text.fold).map String.ofList)) =
            (ParseCause.afterCount (" ".intercalate (extra.map String.ofList))).fold := by
        rw [ParseCause.fold, Text.foldString_intercalate]
      simp only [List.map_cons]
      rcases trailing with _ | ⟨w, _ | ⟨w', ws⟩⟩
      · exact .throwIf .rfl rfl hcount
      · simp only [List.map_cons, List.map_nil, Text.sameAscii_fold]
        cases Text.sameAscii w "TIMES".toList with
        | true => exact .throwIf .rfl rfl hcount
        | false => exact .throwIf (by simp) (hextra [w]) hcount
      · exact .throwIf (by simp) (hextra (w :: w' :: ws)) hcount
  · have hother := not_exists.1 hequals
    have hother' := Text.fold_ne_cons (by decide) hother
    rw [← hfold] at hother'
    rw [readCount_of_noEquals declared hother, readCount_of_noEquals declared hother']
    exact .error rfl

theorem folds_readCondition (declared : List String) (args : List Char) :
    Folds (fun ts ts' => ts' = ts.map Token.fold) (readCondition declared args)
      (readCondition declared (Text.fold args)) := by
  unfold readCondition
  simp only [Text.trimEnd_fold, Text.length_fold, Text.take_fold, Text.drop_fold,
    Text.sameAscii_fold, Text.getLast?_fold_all Text.caseBlind_isAsciiBlank]
  refine .throwIf .rfl rfl ?_
  refine .bind (Condition.folds_parse _) fun ts ts' h => ?_
  subst h
  exact .bind (Token.folds_checkAllDeclared declared ts) fun _ _ _ => .ok rfl

end Declaration

namespace Pattern

def fold (p : Pattern) : Pattern := { p with name := foldString p.name }

theorem keyOf_foldString (name : String) : keyOf (foldString name) = keyOf name := by
  rw [keyOf, foldString, String.toList_ofList, Text.upper_fold, keyOf]

@[simp] theorem key_fold (p : Pattern) : p.fold.key = p.key := keyOf_foldString p.name

end Pattern

namespace PatternTable

def fold (table : PatternTable) : PatternTable := table.map Pattern.fold

@[simp] theorem find?_fold (table : PatternTable) (name : String) :
    table.fold.find? (foldString name) = (table.find? name).map Pattern.fold := by
  rw [find?, Pattern.keyOf_foldString, fold, NameMap.get?_map, find?]

theorem getD_add?_fold (table : PatternTable) (p : Pattern) :
    (table.fold.add? p.fold).getD table.fold = ((table.add? p).getD table).fold := by
  rw [add?, add?, Pattern.key_fold, fold, NameMap.contains_map, NameMap.set_map]
  split <;> rfl

end PatternTable

def ParseRemark.fold : ParseRemark → ParseRemark
  | ignoredArguments keyword args => ignoredArguments keyword (foldString args)
  | largePattern name w h => largePattern (foldString name) w h
  | paddedData name found wanted => paddedData (foldString name) found wanted
  | truncatedData name found wanted => truncatedData (foldString name) found wanted

namespace Definition

def Fields.fold (f : Fields) : Fields :=
  { f with name := foldString f.name, data := Text.fold f.data }

@[simp] theorem Fields.name_fold (f : Fields) : f.fold.name = foldString f.name := rfl

@[simp] theorem Fields.width_fold (f : Fields) : f.fold.width = f.width := rfl

@[simp] theorem Fields.height_fold (f : Fields) : f.fold.height = f.height := rfl

@[simp] theorem Fields.data_fold (f : Fields) : f.fold.data = Text.fold f.data := rfl

theorem folds_size (args : Arguments) (key : String) :
    Folds (fun n n' => n' = n) (size args key) (size args.fold key) := by
  rw [size, size, Arguments.fold, NameMap.get?_map]
  cases args.get? key with
  | none => exact .error rfl
  | some t =>
    cases t with
    | int n => exact .ok rfl
    | _ => exact .error rfl

theorem folds_text (args : Arguments) (key : String) :
    Folds (fun s s' => s' = foldString s) (text args key) (text args.fold key) := by
  rw [text, text, Arguments.fold, NameMap.get?_map]
  cases args.get? key with
  | none => exact .error rfl
  | some t =>
    cases t with
    | text s => exact .ok rfl
    | _ => exact .error rfl

theorem afterKeyword?_fold (args : List Char) :
    afterKeyword? (Text.fold args) = (afterKeyword? args).map Text.fold := by
  simp only [afterKeyword?, Text.take_fold, Text.drop_fold, Text.sameAscii_fold,
    Text.head?_fold_all Text.caseBlind_isAsciiBlank]
  split <;> rfl

theorem folds_readFields (args : List Char) :
    Folds (fun f f' => f' = f.fold) (readFields args) (readFields (Text.fold args)) := by
  unfold readFields
  rw [afterKeyword?_fold]
  cases afterKeyword? args with
  | none => exact .error rfl
  | some rest =>
    refine .bind (Arguments.folds_parse rest) fun a a' h => ?_
    subst h
    refine .bind (folds_text a "NAME") fun name name' hname => ?_
    refine .throwIf (by rw [hname, Text.isEmpty_foldString]) rfl ?_
    refine .bind (folds_size a "WIDTH") fun w w' hw => ?_
    refine .bind (folds_size a "HEIGHT") fun h h' hh => ?_
    refine .bind (folds_text a "DATA") fun data data' hdata => ?_
    subst hname hw hh hdata
    exact .ok (by simp [Fields.fold, foldString])

theorem sizeFault?_fold (f : Fields) :
    sizeFault? f.fold = (sizeFault? f).map ParseCause.fold := by
  simp only [sizeFault?, Fields.name_fold, Fields.width_fold, Fields.height_fold]
  rw [apply_ite (Option.map ParseCause.fold), apply_ite (Option.map ParseCause.fold)]
  rfl

theorem contentFault?_fold (table : PatternTable) (f : Fields) :
    contentFault? table.fold f.fold = (contentFault? table f).map ParseCause.fold := by
  have hdigit : Text.CaseBlind fun c => c == '0' || c == '1' :=
    (Text.caseBlind_beq (by decide)).or (Text.caseBlind_beq (by decide))
  have hsize : table.fold.size = table.size := List.length_map _
  simp only [contentFault?, Fields.name_fold, Fields.data_fold, Text.all_fold hdigit,
    PatternTable.find?_fold, Option.isSome_map, hsize]
  split
  · rfl
  · split
    · rfl
    · split <;> rfl

theorem pattern_fold (f : Fields) : pattern f.fold = (pattern f).fold := by
  have hcells (count : Nat) : cells (Text.fold f.data) count = cells f.data count := by
    have hdigit (c : Char) : (c.toUpper == '1') = (c == '1') := Text.caseBlind_beq (by decide) c
    simp only [cells, Text.take_fold]
    simp only [Text.fold, List.map_map, Function.comp_def, hdigit]
  simp only [pattern, Pattern.fold, Fields.name_fold, Fields.width_fold, Fields.height_fold,
    Fields.data_fold, hcells]

theorem sizeRemarks_fold (f : Fields) :
    sizeRemarks f.fold = (sizeRemarks f).map ParseRemark.fold := by
  simp only [sizeRemarks, Fields.name_fold, Fields.width_fold, Fields.height_fold]
  rw [apply_ite (List.map ParseRemark.fold)]
  rfl

theorem dataRemarks_fold (f : Fields) :
    dataRemarks f.fold = (dataRemarks f).map ParseRemark.fold := by
  simp only [dataRemarks, Fields.name_fold, Fields.width_fold, Fields.height_fold,
    Fields.data_fold, Text.length_fold]
  split
  · rfl
  · split <;> rfl

theorem read_fold (table : PatternTable) (args : List Char) :
    read table.fold (Text.fold args) = ((read table args).1.map ParseRemark.fold,
      foldRead PatternTable.fold (read table args).2) := by
  rw [read, folds_iff.1 (folds_readFields args), read]
  cases readFields args with
  | error cause => rfl
  | ok f =>
    dsimp only [foldRead]
    rw [sizeFault?_fold, contentFault?_fold, sizeRemarks_fold, dataRemarks_fold, pattern_fold,
      PatternTable.getD_add?_fold]
    cases sizeFault? f with
    | some cause => rfl
    | none =>
      cases contentFault? table f with
      | some cause => rfl
      | none => simp

end Definition

end PatternScript
