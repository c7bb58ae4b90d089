import PatternScript.Proofs.Printing.Lists
import PatternScript.Proofs.Printing.Phrases

/-!
# Written headers

The summary of a command that was read is a line of its language: the keyword, and after it
text from which the same header is read wherever the same variables are declared. The keys of
its arguments must not hold blanks, as they would be lost where the line is trimmed.
-/
namespace PatternScript

open Text (Ends Trimmed isBlank isAsciiBlank upper headline)

section Keywords

def keywords : List String :=
  ["VAR", "LET", "COLOR", "FILL", "RESET_TRANSFORMS", "TRANSLATE", "ROTATE", "SCALE", "REPEAT",
    "IF", "ELSE", "ENDREPEAT", "ENDIF"] ++ Shape.all.map Shape.name

theorem Action.keyword_mem (a : Action) : a.keyword ∈ keywords := by
  cases a with
  | draw shape => cases shape <;> simp [keyword, keywords, Shape.all]
  | _ => simp [keyword, keywords]

theorem Command.keyword_mem (c : Command) : c.keyword ∈ keywords := by
  cases c with
  | act line a => exact a.keyword_mem
  | loop => simp [keyword, keywords, BlockKind.keyword]
  | choice => simp [keyword, keywords, BlockKind.keyword]

theorem BlockKind.terminator_mem (kind : BlockKind) : kind.terminator ∈ keywords := by
  cases kind <;> simp [terminator, keywords]

theorem statement?_keyword {keyword : String} {args : List Char} (h : keyword ∈ keywords)
    (hargs : Trimmed args) :
    Text.statement? (headline keyword.toList args) = some (keyword, args) := by
  have hplain : ∀ k ∈ keywords, k.toList ≠ [] ∧ k.toList.all Expression.isNameChar = true ∧
      k.toList.map Char.toUpper = k.toList := by
    decide
  obtain ⟨hne, hname, hupper⟩ := hplain keyword h
  have hchars := List.all_eq_true.1 hname
  have hremark : keyword.toList.head? ≠ some '#' := by
    intro hhead
    exact absurd (hchars '#' (List.mem_of_mem_head? hhead)) (by decide)
  rw [Text.statement?_headline (fun c hc => isBlank_of_isNameChar (hchars c hc)) hne hremark
    (by rw [upper_eq_map hchars, hupper]) hargs, String.ofList_toList]

theorem no_feed_keyword {keyword : String} (h : keyword ∈ keywords) : '\n' ∉ keyword.toList := by
  have hplain : ∀ k ∈ keywords, '\n' ∉ k.toList := by decide
  exact hplain keyword h

end Keywords

namespace Declaration

def writtenValue (name : String) (value : List Token) : List Char :=
  name.toList ++ " = ".toList ++ (Token.writtenAll value).toList

def writtenCount (count : Token) : List Char := ("COUNT=" ++ count.written ++ " TIMES").toList

theorem writtenCount_eq (count : Token) :
    writtenCount count = "COUNT=".toList ++ count.chars ++ " TIMES".toList := by
  simp [writtenCount, Token.written]

def writtenCondition (condition : List Token) : List Char :=
  (Token.writtenAll condition).toList ++ " THEN".toList

end Declaration

def Action.written : Action → List Char
  | declare name [] => name.toList
  | declare name init => Declaration.writtenValue name init
  | assign name value => Declaration.writtenValue name value
  | a => (a.args?.getD .empty).written

def Command.written : Command → List Char
  | act _ a => a.written
  | loop _ count _ => Declaration.writtenCount count
  | choice _ condition _ _ => Declaration.writtenCondition condition

section Summaries

theorem headline_of_ne_nil {keyword args : List Char} (h : args ≠ []) :
    headline keyword args = keyword ++ ' ' :: args := if_neg h

theorem headline_intercalate {keyword : List Char} {words : List (List Char)}
    (h : ∀ word ∈ words, word ≠ []) :
    headline keyword ([' '].intercalate words) = [' '].intercalate (keyword :: words) := by
  rw [Text.intercalate_cons]
  cases words with
  | nil => simp [headline]
  | cons word words =>
    have hne : [' '].intercalate (word :: words) ≠ [] := by
      rw [Text.intercalate_cons]
      simp [h word List.mem_cons_self]
    rw [headline_of_ne_nil hne, Text.flatMap_eq_intercalate (List.cons_ne_nil _ _)]

theorem Arguments.toList_summary (keyword : String) (args : Arguments) :
    (" ".intercalate (keyword :: args.entries.map fun (k, v) => s!"{k}={v.written}")).toList =
      headline keyword.toList args.written := by
  have hentry (e : String × Token) : (s!"{e.1}={e.2.written}").toList = entryChars e := by
    change (e.1 ++ "=" ++ String.ofList e.2.chars).toList = _
    simp [entryChars]
  have hentries : (args.entries.map fun (k, v) => s!"{k}={v.written}").map String.toList =
      args.entries.map entryChars := by
    rw [List.map_map]
    exact List.map_congr_left fun e _ => hentry e
  rw [String.toList_intercalate, List.map_cons, hentries, written, headline_intercalate]
  · rfl
  · intro word hword
    obtain ⟨e, -, rfl⟩ := List.mem_map.1 hword
    simp [entryChars]

end Summaries

namespace Declaration

variable {declared : List String} {args cs : List Char} {name : String} {ts : List Token}

section Names

theorem exists_bare (h : IsVariableName name) :
    ∃ bare, name.toList = '$' :: bare ∧ isIdentifier bare = true ∧ fullName bare = name ∧
      '=' ∉ bare ∧ Trimmed bare ∧ bare.any isAsciiBlank = false := by
  obtain ⟨bare, hname, hbare, hupper⟩ := h.exists_chars
  have hchars := all_isNameChar_of_isIdentifier hbare
  have hblank : ∀ c ∈ bare, isBlank c = false := fun c hc => isBlank_of_isNameChar (hchars c hc)
  refine ⟨bare, hname, hbare, ?_, ?_, Text.trimmed_of_word hblank, ?_⟩
  · rw [fullName, hupper, ← hname, String.ofList_toList]
  · intro hequals
    exact absurd (hchars '=' hequals) (by decide)
  · rw [List.any_eq_false]
    intro c hc
    simp [Text.isAsciiBlank_eq_false (hblank c hc)]

theorem trimmed_value (hparse : Expression.parseDeclared declared cs = .ok ts) (hts : ts ≠ []) :
    Trimmed (Token.writtenAll ts).toList ∧ (Token.writtenAll ts).toList ≠ [] := by
  have hscan := Expression.scan_of_parse (Expression.of_parseDeclared hparse).1
  exact ⟨(Expression.trimmed_writtenAll hscan).1, Expression.writtenAll_ne_nil hscan hts⟩

variable (hname : IsVariableName name) (henvironment : isEnvironmentName name = false)

include hname henvironment

theorem readVar_name (hfresh : name ∉ declared) :
    readVar declared name.toList = .ok (name, .ok []) := by
  have hfresh : declared.contains name = false := by simpa using hfresh
  obtain ⟨bare, hchars, hbare, hfull, hequals, htrimmed, hascii⟩ := exists_bare hname
  rw [hchars, readVar]
  simp only [Text.cut?_eq_none hequals, htrimmed.trim_eq, hascii, hbare, hfull, henvironment,
    hfresh, Bool.not_true, Bool.false_eq_true, if_false]
  rfl

theorem readVar_written (hfresh : name ∉ declared)
    (hparse : Expression.parseDeclared declared cs = .ok ts) (hts : ts ≠ []) :
    readVar declared (writtenValue name ts) = .ok (name, .ok ts) := by
  have hfresh : declared.contains name = false := by simpa using hfresh
  obtain ⟨bare, hchars, hbare, hfull, hequals, htrimmed, hascii⟩ := exists_bare hname
  obtain ⟨hcs, hne⟩ := trimmed_value hparse hts
  have hwritten := Expression.parseDeclared_writtenAll hparse
  rw [writtenValue]
  generalize (Token.writtenAll ts).toList = cs at hcs hne hwritten ⊢
  obtain ⟨c, cs, rfl⟩ := List.exists_cons_of_ne_nil hne
  have hargs : name.toList ++ " = ".toList ++ c :: cs =
      '$' :: ((bare ++ [' ']) ++ '=' :: ' ' :: c :: cs) := by
    simp [hchars]
  rw [hargs, readVar]
  simp only [Text.cut?_append (show '=' ∉ bare ++ [' '] by simp [hequals]),
    Text.trim_append_blank htrimmed (show isBlank ' ' = true from rfl),
    Text.trim_cons_blank (show isBlank ' ' = true from rfl), hcs.trim_eq, hascii, hbare, hfull,
    henvironment, hfresh, Bool.not_true, Bool.false_eq_true, if_false]
  exact congrArg (fun init => Except.ok (name, init)) hwritten

theorem readLet_written (hdeclared : name ∈ declared)
    (hparse : Expression.parseDeclared declared cs = .ok ts) (hts : ts ≠ []) :
    readLet declared (writtenValue name ts) = .ok (.assign name ts) := by
  have hdeclared : declared.contains name = true := by simpa using hdeclared
  obtain ⟨bare, hchars, hbare, hfull, hequals, -, -⟩ := exists_bare hname
  obtain ⟨hcs, hne⟩ := trimmed_value hparse hts
  have hwritten := Expression.parseDeclared_writtenAll hparse
  rw [writtenValue]
  generalize (Token.writtenAll ts).toList = cs at hcs hne hwritten ⊢
  have hword : Trimmed ('$' :: bare) := hchars ▸ Text.trimmed_of_word hname.nonblank
  have hargs : name.toList ++ " = ".toList ++ cs =
      ('$' :: bare ++ [' ']) ++ '=' :: ' ' :: cs := by
    simp [hchars]
  rw [hargs, readLet]
  simp only [Text.cut?_append (show '=' ∉ '$' :: bare ++ [' '] by simp [hequals]),
    Text.trim_append_blank hword (show isBlank ' ' = true from rfl),
    Text.trim_cons_blank (show isBlank ' ' = true from rfl), hcs.trim_eq, hbare, hfull,
    henvironment, hdeclared, hne, hwritten, Bool.not_true, Bool.false_eq_true, if_false]
  rfl

end Names

theorem readCount_written {count : Token} (hcount : count.IsWord) (hoperand : count.isOperand = true)
    (hdeclared : count.checkDeclared declared = .ok ()) :
    readCount declared (writtenCount count) = .ok count := by
  have hcut : Text.trimStart (List.drop 5 ("COUNT=".toList ++ count.chars ++ " TIMES".toList)) =
      '=' :: (count.chars ++ " TIMES".toList) := by
    rw [List.append_assoc]
    exact Text.trimStart_of_ends (Text.ends_cons (by decide))
  have htimes : Text.words " TIMES".toList = ["TIMES".toList] := by
    have hword : Text.words ("TIMES".toList ++ []) = "TIMES".toList :: Text.words [] :=
      Text.words_append (Text.nonblank_of_any (by decide)) (by decide) (Text.ends_nil _)
    rw [Text.words_of_nil (show [].dropWhile isBlank = [] from rfl)] at hword
    exact (Text.words_cons_blank (by decide)).trans hword
  have hends : Ends (!isBlank ·) " TIMES".toList := Text.ends_cons (by decide)
  have hwords : Text.words (count.chars ++ " TIMES".toList) = [count.chars, "TIMES".toList] := by
    rw [Text.words_append hcount.nonblank hcount.ne_nil hends, htimes]
  have hkeyword : Text.sameAscii
      (List.take 5 ("COUNT=".toList ++ count.chars ++ " TIMES".toList)) "COUNT".toList = true := by
    rw [List.append_assoc]
    exact (by decide : Text.sameAscii "COUNT".toList "COUNT".toList = true)
  rw [writtenCount_eq, readCount, hcut]
  simp only [hwords]
  refine throw_unless_eq_ok.2 ⟨by rw [hkeyword]; decide, ?_⟩
  refine throw_unless_eq_ok.2 ⟨by decide, ?_⟩
  refine bind_eq_ok.2 ⟨count, hcount.ofWord_eq, ?_⟩
  refine throw_unless_eq_ok.2 ⟨by simp [hoperand], ?_⟩
  exact bind_eq_ok.2 ⟨⟨⟩, hdeclared, rfl⟩

theorem readCondition_written (hparse : Condition.parse cs = .ok ts)
    (hdeclared : Token.checkAllDeclared declared ts = .ok ()) :
    readCondition declared (writtenCondition ts) = .ok ts := by
  have hblank : ∀ c ∈ [' '], isAsciiBlank c = true := List.forall_mem_singleton.2 rfl
  have hwritten := Condition.parse_writtenAll hparse hblank
  rw [writtenCondition]
  generalize (Token.writtenAll ts).toList = written at hwritten ⊢
  have htrim : Text.trimEnd (written ++ " THEN".toList) = written ++ [' '] ++ "THEN".toList := by
    rw [List.append_assoc]
    refine Text.trimEnd_of_ends ?_
    rw [List.reverse_append]
    exact Text.ends_cons (by decide)
  have hlength : (written ++ [' '] ++ "THEN".toList).length - 4 = (written ++ [' ']).length := by
    simp
  rw [readCondition, htrim, hlength, List.take_left, List.drop_left]
  refine throw_unless_eq_ok.2 ⟨?_, ?_⟩
  · rw [List.getLast?_concat]
    decide
  · exact bind_eq_ok.2 ⟨ts, hwritten, bind_eq_ok.2 ⟨⟨⟩, hdeclared, rfl⟩⟩

end Declaration

section Headers

variable {declared : List String} {args : List Char}

theorem Arguments.parseDeclared_written {a : Arguments}
    (h : parseDeclared declared args = .ok a) (hfeed : '\n' ∉ args)
    (hkeys : ∀ key ∈ a.names, ∀ c ∈ key.toList, isBlank c = false) :
    Trimmed a.written ∧ '\n' ∉ a.written ∧ parseDeclared declared a.written = .ok a := by
  obtain ⟨read, hparse, hchecked⟩ := bind_eq_ok.1 h
  obtain ⟨⟨⟩, hdeclared, hread⟩ := bind_eq_ok.1 hchecked
  cases hread
  have hentries := isEntry_of_readInto hparse hfeed (List.forall_mem_nil _)
  refine ⟨trimmed_written hentries hkeys, oneLine_written hentries, ?_⟩
  exact bind_eq_ok.2 ⟨a, parse_written hentries, hchecked⟩

namespace Declaration

variable {name : String} {ts : List Token} {cs : List Char}

theorem trimmed_writtenValue (hname : IsVariableName name)
    (hparse : Expression.parseDeclared declared cs = .ok ts) (hne : ts ≠ []) :
    Trimmed (writtenValue name ts) ∧ '\n' ∉ writtenValue name ts := by
  have hscan := Expression.scan_of_parse (Expression.of_parseDeclared hparse).1
  obtain ⟨htrimmed, hline⟩ := Expression.trimmed_writtenAll hscan
  have hnamed := hname.nonblank
  have hnil : name.toList ≠ [] := by
    obtain ⟨bare, hchars, -⟩ := hname.exists_chars
    simp [hchars]
  refine ⟨(Text.trimmed_of_word hnamed).append htrimmed hnil
    (Expression.writtenAll_ne_nil hscan hne) _, ?_⟩
  simp only [writtenValue, List.mem_append, not_or]
  exact ⟨⟨fun h => absurd (hnamed _ h) (by decide), by decide⟩, hline⟩

theorem trimmed_writtenCount {count : Token} (hword : count.IsWord) :
    Trimmed (writtenCount count) ∧ '\n' ∉ writtenCount count := by
  rw [writtenCount_eq]
  have htrimmed : Trimmed ("COUNT=".toList ++ count.chars ++ " TIMES".toList) := by
    rw [List.append_assoc]
    refine ⟨Text.ends_cons (by decide), ?_⟩
    rw [List.reverse_append, List.reverse_append, List.append_assoc]
    exact Text.ends_cons (by decide)
  refine ⟨htrimmed, ?_⟩
  simp only [List.mem_append, not_or]
  exact ⟨⟨by decide, hword.oneLine⟩, by decide⟩

theorem trimmed_writtenCondition (hparse : Condition.parse cs = .ok ts) :
    Trimmed (writtenCondition ts) ∧ '\n' ∉ writtenCondition ts := by
  have hscan := Condition.scan_of_parse hparse
  obtain ⟨htrimmed, hline⟩ := Expression.trimmed_writtenAll hscan
  have hne : ts ≠ [] := by
    rintro rfl
    cases (Condition.of_parse hparse).1
  have hthen : Trimmed "THEN".toList := Text.trimmed_of_word (Text.nonblank_of_any (by decide))
  have happended :=
    htrimmed.append hthen (Expression.writtenAll_ne_nil hscan hne) (by decide) [' ']
  rw [List.append_assoc] at happended
  refine ⟨happended, ?_⟩
  simp only [writtenCondition, List.mem_append, not_or]
  exact ⟨hline, by decide⟩

end Declaration

theorem Action.readFrom_written {a : Action} (h : a.ReadFrom declared args) (hfeed : '\n' ∉ args)
    (hkeys : ∀ key ∈ (a.args?.getD .empty).names, ∀ c ∈ key.toList, isBlank c = false) :
    Trimmed a.written ∧ '\n' ∉ a.written ∧ a.ReadFrom declared a.written := by
  cases a with
  | declare name init =>
    obtain ⟨hname, henvironment, hfresh, hinit⟩ := Declaration.parts_of_readVar h
    cases init with
    | nil =>
      have hnamed := hname.nonblank
      exact ⟨Text.trimmed_of_word hnamed, fun h => absurd (hnamed _ h) (by decide),
        Declaration.readVar_name hname henvironment hfresh⟩
    | cons t ts =>
      have hne : t :: ts ≠ [] := List.cons_ne_nil _ _
      obtain ⟨cs, hparse⟩ := (hinit _ rfl).resolve_left hne
      obtain ⟨htrimmed, hline⟩ := Declaration.trimmed_writtenValue hname hparse hne
      exact ⟨htrimmed, hline, Declaration.readVar_written hname henvironment hfresh hparse hne⟩
  | assign name value =>
    obtain ⟨_, _, heq, hname, henvironment, hdeclared, hne, cs, hparse⟩ :=
      Declaration.parts_of_readLet h
    cases heq
    obtain ⟨htrimmed, hline⟩ := Declaration.trimmed_writtenValue hname hparse hne
    exact ⟨htrimmed, hline, Declaration.readLet_written hname henvironment hdeclared hparse hne⟩
  | resetTransforms => exact ⟨.nil, List.not_mem_nil, trivial⟩
  | color args | fill args | translate args | rotate args | scale args | draw shape args =>
    exact Arguments.parseDeclared_written h hfeed hkeys

theorem Action.toList_summary {a : Action} (h : a.ReadFrom declared args) :
    a.summary.toList = headline a.keyword.toList a.written := by
  cases a with
  | declare name init =>
    obtain ⟨bare, hchars, -⟩ := (Declaration.parts_of_readVar h).1.exists_chars
    cases init with
    | nil =>
      change ("VAR " ++ name).toList = headline "VAR".toList name.toList
      rw [headline_of_ne_nil (by simp [hchars]), String.toList_append]
      rfl
    | cons t ts =>
      change ("VAR " ++ name ++ " = " ++ Token.writtenAll (t :: ts)).toList =
        headline "VAR".toList (Declaration.writtenValue name (t :: ts))
      rw [headline_of_ne_nil (by simp [Declaration.writtenValue])]
      simp [Declaration.writtenValue]
  | assign name value =>
    change ("LET " ++ name ++ " = " ++ Token.writtenAll value).toList =
      headline "LET".toList (Declaration.writtenValue name value)
    rw [headline_of_ne_nil (by simp [Declaration.writtenValue])]
    simp [Declaration.writtenValue]
  | resetTransforms => exact Arguments.toList_summary _ _
  | color args | fill args | translate args | rotate args | scale args | draw shape args =>
    exact Arguments.toList_summary _ args

def Command.ownKeys : Command → List String
  | act _ a => (a.args?.getD .empty).names
  | loop .. | choice .. => []

theorem Command.readFrom_written {c : Command} (h : c.ReadFrom declared args) (hfeed : '\n' ∉ args)
    (hkeys : ∀ key ∈ c.ownKeys, ∀ c ∈ key.toList, isBlank c = false) :
    Trimmed c.written ∧ '\n' ∉ c.written ∧ c.ReadFrom declared c.written := by
  cases c with
  | act line a => exact Action.readFrom_written h hfeed hkeys
  | loop line count body =>
    obtain ⟨word, hread, hoperand, hdeclared⟩ := Declaration.parts_of_readCount h
    have hword := Token.isWord_of_ofWord hread hoperand
    obtain ⟨htrimmed, hline⟩ := Declaration.trimmed_writtenCount hword
    exact ⟨htrimmed, hline, Declaration.readCount_written hword hoperand hdeclared⟩
  | choice line condition yes no =>
    obtain ⟨cs, hparse, hdeclared⟩ := Declaration.parts_of_readCondition h
    obtain ⟨htrimmed, hline⟩ := Declaration.trimmed_writtenCondition hparse
    exact ⟨htrimmed, hline, Declaration.readCondition_written hparse hdeclared⟩

theorem Command.toList_summary {c : Command} (h : c.ReadFrom declared args) :
    c.summary.toList = headline c.keyword.toList c.written := by
  cases c with
  | act line a => exact Action.toList_summary h
  | loop line count body =>
    change ("REPEAT COUNT=" ++ count.written ++ " TIMES").toList =
      headline "REPEAT".toList (Declaration.writtenCount count)
    rw [headline_of_ne_nil (by simp [Declaration.writtenCount])]
    simp [Declaration.writtenCount, Token.written]
  | choice line condition yes no =>
    change ("IF " ++ Token.writtenAll condition ++ " THEN").toList =
      headline "IF".toList (Declaration.writtenCondition condition)
    rw [headline_of_ne_nil (by simp [Declaration.writtenCondition])]
    simp [Declaration.writtenCondition]

theorem Command.oneLine_summary {c : Command} (hc : c.Legible declared)
    (hkeys : ∀ key ∈ c.ownKeys, ∀ c ∈ key.toList, isBlank c = false) :
    '\n' ∉ c.summary.toList := by
  obtain ⟨args, hfeed, hread⟩ := hc
  obtain ⟨-, hline, -⟩ := readFrom_written hread hfeed hkeys
  have hkeyword := no_feed_keyword c.keyword_mem
  rw [toList_summary hread, headline]
  split
  · exact hkeyword
  · simp [hkeyword, hline]

end Headers

end PatternScript
