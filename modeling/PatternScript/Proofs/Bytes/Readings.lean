import PatternScript.Bytes.Reading
import PatternScript.Proofs.Bytes.Expressions

/-!
# Scripts by their bytes

Whatever is cut off a line has no more bytes than the source, so that every position in it is
a word. A text that is equal to a keyword up to the case of letters consists of single bytes,
so that the cuts at five, at seven and at four bytes before the end fall between characters.
-/
namespace PatternScript.Bytes

open Text (isAsciiBlank)

variable {top : Nat} {args cs cs' : List Char} {declared : List String}

theorem length_ofText_le (h : cs.Sublist cs') : (ofText cs).length ≤ (ofText cs').length := by
  induction h with
  | slnil => exact Nat.le_refl _
  | cons c _ ih => rw [length_ofText_cons]; omega
  | cons_cons c _ ih => rw [length_ofText_cons, length_ofText_cons]; omega

theorem trim_sublist (cs : List Char) : (Text.trim cs).Sublist cs := by
  refine .trans ?_ (List.dropWhile_sublist Text.isBlank)
  rw [Text.trim, Text.trimEnd, ← List.reverse_sublist, List.reverse_reverse]
  exact List.dropWhile_sublist _

theorem cut?_sublist {mark : Char} {before after : List Char}
    (h : Text.cut? mark cs = some (before, after)) : after.Sublist cs := by
  rw [Text.cut?] at h
  split at h
  next => cases h
  next hrest =>
    cases h
    exact (List.sublist_cons_self _ _).trans (hrest ▸ List.dropWhile_sublist _)

namespace Declaration

theorem runs_readVar? (hsize : (ofText args).length ≤ top) :
    Runs Eq (readVar? top declared args) (Declaration.readVar declared args) := by
  by_cases hdollar : ∃ rest, args = '$' :: rest
  · obtain ⟨rest, rfl⟩ := hdollar
    unfold readVar? Declaration.readVar
    refine .throwIf (.throwIf (.throwIf (.throwIf ?_)))
    cases hcut : Text.cut? '=' rest with
    | none => exact .ok rfl
    | some parts =>
      obtain ⟨before, after⟩ := parts
      dsimp only
      have hafter := (trim_sublist after).trans
        ((cut?_sublist hcut).trans (List.sublist_cons_self '$' _))
      have hread := Expression.runs_parseDeclared? declared
        (Nat.le_trans (length_ofText_le hafter) hsize)
      cases hinit : Text.trim after with
      | nil => exact .ok rfl
      | cons c init =>
        rw [hinit] at hread
        exact .check (Runs.eq_iff.1 hread) (.ok rfl)
  · have hother := not_exists.1 hdollar
    rw [readVar?_of_noDollar top declared hother,
      PatternScript.Declaration.readVar_of_noDollar declared hother]
    exact .error _

theorem runs_readLet? (hsize : (ofText args).length ≤ top) :
    Runs Eq (readLet? top declared args) (Declaration.readLet declared args) := by
  cases hcut : Text.cut? '=' args with
  | none =>
    rw [readLet?, Declaration.readLet, hcut]
    exact .error _
  | some parts =>
    obtain ⟨before, after⟩ := parts
    by_cases hdollar : ∃ bare, Text.trim before = '$' :: bare
    · obtain ⟨bare, hbare⟩ := hdollar
      have hafter := (trim_sublist after).trans (cut?_sublist hcut)
      rw [readLet?, Declaration.readLet, hcut]
      dsimp only
      rw [hbare]
      iterate 4 refine .throwIf ?_
      refine .bind (Expression.runs_parseDeclared? declared
        (Nat.le_trans (length_ofText_le hafter) hsize)) fun tokens _ h => ?_
      exact .ok (congrArg _ h)
    · have hother := not_exists.1 hdollar
      rw [readLet?_of_noDollar top declared hcut hother,
        PatternScript.Declaration.readLet_of_noDollar declared hcut hother]
      exact .error _

section Keywords

variable {keyword : List Char}

theorem ascii_of_toUpper {c d : Char} (hd : d.toNat < 128) (h : c.toUpper = d.toUpper) :
    c.toNat < 128 := by
  have hnat := congrArg Char.toNat h
  rw [Text.toNat_toUpper, Text.toNat_toUpper] at hnat
  split at hnat <;> split at hnat <;> omega

theorem length_of_sameAscii (hkeyword : keyword.all (·.toNat < 128) = true)
    (h : Text.sameAscii cs keyword = true) :
    cs.length = keyword.length ∧ (ofText cs).length = keyword.length := by
  rw [Text.sameAscii, beq_iff_eq] at h
  induction keyword generalizing cs with
  | nil =>
    rw [List.map_nil, List.map_eq_nil_iff] at h
    subst h
    exact ⟨rfl, rfl⟩
  | cons d keyword ih =>
    cases cs with
    | nil => cases h
    | cons c cs =>
      rw [List.map_cons, List.map_cons, List.cons.injEq] at h
      rw [List.all_cons, Bool.and_eq_true, decide_eq_true_eq] at hkeyword
      have hc := ascii_of_toUpper hkeyword.1 h.1
      obtain ⟨hchars, hbytes⟩ := ih hkeyword.2 h.2
      refine ⟨congrArg (· + 1) hchars, ?_⟩
      rw [length_ofText_cons, utf8Size_eq_one_iff.2 hc, hbytes, List.length_cons, Nat.add_comm]

theorem takeTo?_eq_some {pos : Nat} {start : List Char} (h : takeTo? cs pos = some start) :
    ∃ rest, cs = start ++ rest ∧ pos = (ofText start).length := by
  fun_induction takeTo? cs pos generalizing start with
  | case1 cs =>
    cases h
    exact ⟨cs, rfl, rfl⟩
  | case2 => cases h
  | case3 c rest pos hsize ih =>
    obtain ⟨start, hstart, rfl⟩ := Option.map_eq_some_iff.1 h
    obtain ⟨after, rfl, hpos⟩ := ih hstart
    refine ⟨after, rfl, ?_⟩
    rw [length_ofText_cons]
    omega
  | case4 => cases h

theorem dropTo?_eq_some {pos : Nat} {rest : List Char} (h : dropTo? cs pos = some rest) :
    ∃ before, cs = before ++ rest ∧ pos = (ofText before).length := by
  fun_induction dropTo? cs pos with
  | case1 cs =>
    cases h
    exact ⟨[], rfl, rfl⟩
  | case2 => cases h
  | case3 c cs pos hsize ih =>
    obtain ⟨before, rfl, hpos⟩ := ih h
    refine ⟨c :: before, rfl, ?_⟩
    rw [length_ofText_cons]
    omega
  | case4 => cases h

theorem afterPrefix?_eq {keyword : String}
    (hkeyword : keyword.toList.all (·.toNat < 128) = true) (args : List Char) :
    afterPrefix? keyword args =
      some (if Text.sameAscii (args.take keyword.length) keyword.toList then
        some (args.drop keyword.length) else none) := by
  rw [afterPrefix?]
  cases hsame : Text.sameAscii (args.take keyword.length) keyword.toList with
  | true =>
    obtain ⟨-, hbytes⟩ := length_of_sameAscii hkeyword hsame
    have htake := takeTo?_append (args.take keyword.length) (args.drop keyword.length)
    have hdrop := dropTo?_append (args.take keyword.length) (args.drop keyword.length)
    rw [List.take_append_drop, hbytes, String.length_toList] at htake hdrop
    rw [htake, hdrop]
    dsimp only
    rw [hsame]
    rfl
  | false =>
    split
    next start hstart =>
      obtain ⟨rest, rfl, hpos⟩ := takeTo?_eq_some hstart
      rw [if_neg fun h => ?_, if_neg Bool.false_ne_true]
      -- a beginning with the bytes of the keyword has its characters
      rw [List.take_left' (by rw [(length_of_sameAscii hkeyword h).1, String.length_toList]), h]
        at hsame
      cases hsame
    next => rfl

theorem beforeThen?_eq (header : List Char) :
    beforeThen? header =
      some (if Text.sameAscii (header.drop (header.length - 4)) "THEN".toList &&
          (header.take (header.length - 4)).getLast?.all isAsciiBlank then
        some (header.take (header.length - 4)) else none) := by
  have hkeyword : "THEN".toList.all (·.toNat < 128) = true := by decide
  have hsplit := List.take_append_drop (header.length - 4) header
  rw [beforeThen?]
  cases hsame : Text.sameAscii (header.drop (header.length - 4)) "THEN".toList with
  | true =>
    obtain ⟨hchars, hbytes⟩ := length_of_sameAscii hkeyword hsame
    have hsize := congrArg (fun cs => (ofText cs).length) hsplit
    rw [ofText_append, List.length_append, hbytes] at hsize
    change _ + 4 = _ at hsize
    have htake := takeTo?_append (header.take (header.length - 4)) (header.drop (header.length - 4))
    have hdrop := dropTo?_append (header.take (header.length - 4)) (header.drop (header.length - 4))
    rw [hsplit, show (ofText (header.take (header.length - 4))).length =
      (ofText header).length - 4 by omega] at htake hdrop
    rw [if_neg (by omega), hdrop]
    dsimp only
    rw [hsame, if_pos rfl, htake, Bool.true_and]
    rfl
  | false =>
    rw [Bool.false_and, if_neg Bool.false_ne_true]
    split
    next => rfl
    next hsize =>
      split
      next => rfl
      next after hafter =>
        rw [if_neg fun h => ?_]
        obtain ⟨before, rfl, hpos⟩ := dropTo?_eq_some hafter
        rw [List.drop_left' (by
          rw [List.length_append, (length_of_sameAscii hkeyword h).1]; rfl), h] at hsame
        cases hsame

end Keywords

theorem runs_readCount? :
    Runs Eq (readCount? declared args) (Declaration.readCount declared args) := by
  have hprefix : afterPrefix? "COUNT" args = some
      (if Text.sameAscii (args.take 5) "COUNT".toList then some (args.drop 5) else none) :=
    afterPrefix?_eq (by decide) args
  cases hsame : Text.sameAscii (args.take 5) "COUNT".toList with
  | false =>
    rw [hsame] at hprefix
    rw [readCount?, Declaration.readCount, hprefix, hsame]
    exact .error _
  | true =>
    rw [hsame, if_pos rfl] at hprefix
    by_cases hequals : ∃ rest, Text.trimStart (args.drop 5) = '=' :: rest
    · obtain ⟨rest, hrest⟩ := hequals
      unfold readCount? Declaration.readCount
      refine Runs.check hprefix ?_
      rw [hsame, Bool.not_true, if_neg Bool.false_ne_true]
      simp only [hrest]
      cases Text.words rest with
      | nil => exact .error _
      | cons word trailing =>
        refine .throwIf ?_
        refine .bind (.same _) fun count _ hcount => ?_
        subst hcount
        exact .throwIf (.bind (.same _) fun _ _ _ => .ok rfl)
    · have hother := not_exists.1 hequals
      rw [readCount?_of_noEquals declared hprefix hother,
        PatternScript.Declaration.readCount_of_noEquals declared hother]
      exact .error _

theorem runs_readCondition? (hsize : (ofText args).length ≤ top) :
    Runs Eq (readCondition? top declared args) (Declaration.readCondition declared args) := by
  have hheader : (Text.trimEnd args).Sublist args := by
    rw [Text.trimEnd, ← List.reverse_sublist, List.reverse_reverse]
    exact List.dropWhile_sublist _
  unfold readCondition? Declaration.readCondition
  refine Runs.check (beforeThen?_eq _) ?_
  dsimp only
  generalize Text.trimEnd args = header at hheader
  cases Text.sameAscii (header.drop (header.length - 4)) "THEN".toList &&
    (header.take (header.length - 4)).getLast?.all isAsciiBlank with
  | false => exact .error _
  | true =>
    have hbefore := (List.take_sublist (header.length - 4) header).trans hheader
    refine .bind (Condition.runs_parse? (Nat.le_trans (length_ofText_le hbefore) hsize)) ?_
    rintro tokens _ rfl
    exact .bind (.same _) fun _ _ _ => .ok rfl

end Declaration

namespace Definition

variable {table : PatternTable}

theorem afterKeyword?_eq (args : List Char) :
    afterKeyword? args = some (PatternScript.Definition.afterKeyword? args) := by
  have hprefix : Declaration.afterPrefix? "PATTERN" args = some
      (if Text.sameAscii (args.take 7) "PATTERN".toList then some (args.drop 7) else none) :=
    Declaration.afterPrefix?_eq (by decide) args
  rw [afterKeyword?, hprefix, PatternScript.Definition.afterKeyword?]
  cases Text.sameAscii (args.take 7) "PATTERN".toList with
  | false => rfl
  | true => rfl

theorem runs_readFields? (hsize : (ofText args).length ≤ top) :
    Runs Eq (readFields? top args) (Definition.readFields args) := by
  unfold readFields? Definition.readFields
  refine Runs.check (afterKeyword?_eq args) ?_
  cases hrest : PatternScript.Definition.afterKeyword? args with
  | none => exact .error _
  | some rest =>
    have hsublist : rest.Sublist args := by
      rw [PatternScript.Definition.afterKeyword?] at hrest
      split at hrest
      next =>
        cases hrest
        exact List.drop_sublist _ _
      next => cases hrest
    refine .bind (Arguments.runs_parse? (Nat.le_trans (length_ofText_le hsublist) hsize)) ?_
    rintro args _ rfl
    refine .bind (.same _) fun name _ hname => ?_
    subst hname
    refine .throwIf ?_
    refine .bind (.same _) fun width _ hwidth => ?_
    refine .bind (.same _) fun height _ hheight => ?_
    refine .bind (.same _) fun data _ hdata => ?_
    subst hwidth hheight hdata
    exact .ok rfl

theorem mapM_subtract? {data : List Char}
    (hdata : data.all (fun c => c == '0' || c == '1') = true) :
    (ofText data).mapM (subtract? · '0'.toUInt8) =
      some (data.map fun c => if c == '1' then (1 : UInt8) else 0) := by
  induction data with
  | nil => rfl
  | cons c data ih =>
    rw [List.all_cons, Bool.and_eq_true, Bool.or_eq_true, beq_iff_eq, beq_iff_eq] at hdata
    obtain ⟨hc, hdata⟩ := hdata
    rw [ofText_cons, List.map_cons]
    rcases hc with rfl | rfl
    · change (48 :: ofText data).mapM _ = _
      rw [List.mapM_cons, ih hdata]
      rfl
    · change (49 :: ofText data).mapM _ = _
      rw [List.mapM_cons, ih hdata]
      rfl

theorem cells?_eq {data : List Char} (hdata : data.all (fun c => c == '0' || c == '1') = true)
    (count : Nat) : cells? data count = some (Definition.cells data count) := by
  rw [cells?, mapM_subtract? hdata]
  simp only [Option.bind_eq_bind, Option.bind_some, Option.pure_def, Definition.cells,
    List.map_take, List.length_map, List.length_take]
  congr 4
  omega

theorem word?_eq {n : Int32} (hword : 2 ^ 32 - 1 ≤ top) (hn : ¬ n ≤ 0) :
    word? top n = some n.toNatClampNeg := by
  have hpos : ¬ n < 0 := mt Int32.le_of_lt hn
  have hfit := n.toNatClampNeg_lt
  rw [word?, if_neg (not_or.2 ⟨hpos, by omega⟩)]

theorem all_of_contentFault? {f : PatternScript.Definition.Fields}
    (h : PatternScript.Definition.contentFault? table f = none) :
    f.data.all (fun c => c == '0' || c == '1') = true := by
  rw [PatternScript.Definition.contentFault?] at h
  split at h
  next => cases h
  next hdata => simpa only [Bool.not_eq_true', Bool.not_eq_false] using hdata

theorem read?_eq (hword : 2 ^ 32 - 1 ≤ top) (hsize : (ofText args).length ≤ top) :
    read? top table args = some (Definition.read table args) := by
  have hlimit : Pattern.cellLimit = 65536 := rfl
  rw [read?, Runs.eq_iff.1 (runs_readFields? hsize), Definition.read]
  cases Definition.readFields args with
  | error cause => rfl
  | ok f =>
    simp only [Option.bind_eq_bind, Option.bind_some]
    rw [PatternScript.Definition.sizeFault?]
    split
    next => rfl
    next hpos =>
      simp only [Bool.or_eq_true, decide_eq_true_eq, not_or] at hpos
      rw [word?_eq hword hpos.1, word?_eq hword hpos.2]
      dsimp only [Option.bind_some]
      rw [productOrTop]
      by_cases hlarge : Pattern.cellLimit < f.width.toNatClampNeg * f.height.toNatClampNeg
      · rw [if_pos hlarge, if_pos (by omega)]
        rfl
      · rw [if_neg hlarge, Nat.min_eq_right (by omega), if_neg hlarge]
        cases hcontent : PatternScript.Definition.contentFault? table f with
        | some cause => rfl
        | none =>
          dsimp only
          rw [cells?_eq (all_of_contentFault? hcontent)]
          rfl

end Definition

namespace Reading

variable {r : PatternScript.Reading} {line : Nat}

theorem readCommand?_eq (hword : 2 ^ 32 - 1 ≤ top) (hsize : (ofText args).length ≤ top)
    (keyword : String) :
    readCommand? top r line keyword args = some (r.readCommand line keyword args) := by
  have harguments (make : PatternScript.Arguments → Action) :
      (Arguments.parseDeclared? top r.declared args).run.map (pushAs r line make) =
        some (r.pushWith line args make) := by
    rw [Runs.eq_iff.1 (Arguments.runs_parseDeclared? r.declared hsize)]
    rfl
  unfold readCommand?
  dsimp only
  split
  next => rw [Definition.read?_eq hword hsize]; rfl
  next => rw [Runs.eq_iff.1 Declaration.runs_readCount?]; rfl
  next => rw [Runs.eq_iff.1 (Declaration.runs_readCondition? hsize)]; rfl
  next => rfl
  next => rfl
  next => rfl
  next => rw [Runs.eq_iff.1 (Declaration.runs_readVar? hsize)]; rfl
  next => rw [Runs.eq_iff.1 (Declaration.runs_readLet? hsize)]; rfl
  next => exact harguments _
  next => exact harguments _
  next => exact harguments _
  next => exact harguments _
  next => exact harguments _
  next => rfl
  next =>
    rw [PatternScript.Reading.readCommand] <;> try assumption
    cases Shape.ofName? keyword with
    | some shape => exact harguments _
    | none => rfl

section Line

variable {text : List Char} (hblank : Text.trim text ≠ [])
  (hremark : ∀ rest, Text.trim text ≠ '#' :: rest)
include hblank hremark

theorem readLine?_of_command : readLine? top r line text =
    (splitKeyword? (Text.trim text) >>= fun (keyword, args) =>
      readCommand? top r line (String.ofList keyword) args) := by
  rw [readLine?]
  split
  next h => exact absurd h hblank
  next rest h => exact absurd h (hremark rest)
  next => rfl

theorem readLine_of_command : r.readLine line text =
    r.readCommand line (String.ofList (splitKeyword (Text.trim text)).1)
      (splitKeyword (Text.trim text)).2 := by
  rw [PatternScript.Reading.readLine]
  split
  next h => exact absurd h hblank
  next rest h => exact absurd h (hremark rest)
  next => rfl

end Line

theorem readLine?_eq {text : List Char} (hword : 2 ^ 32 - 1 ≤ top)
    (hsize : (ofText text).length ≤ top) :
    readLine? top r line text = some (r.readLine line text) := by
  by_cases hblank : Text.trim text = []
  · simp only [readLine?, PatternScript.Reading.readLine, hblank]
  by_cases hremark : ∃ rest, Text.trim text = '#' :: rest
  · obtain ⟨rest, hrest⟩ := hremark
    simp only [readLine?, PatternScript.Reading.readLine, hrest]
  · have hother := not_exists.1 hremark
    have hargs := ((trim_sublist _).trans (List.dropWhile_sublist (!isAsciiBlank ·))).trans
      (trim_sublist text)
    rw [readLine?_of_command hblank hother, readLine_of_command hblank hother, splitKeyword?_eq]
    exact readCommand?_eq hword (Nat.le_trans (length_ofText_le hargs) hsize) _

theorem readLines?_eq (hword : 2 ^ 32 - 1 ≤ top) {lines : List (List Char)} {passed : Nat}
    (hlines : ∀ text ∈ lines, (ofText text).length ≤ top) (hcount : passed + lines.length ≤ top) :
    readLines? top r passed lines = some (r.readLines (passed + 1) lines) := by
  induction lines generalizing r passed with
  | nil => rfl
  | cons text lines ih =>
    rw [List.length_cons] at hcount
    rw [readLines?, add?_eq (by omega)]
    change (readLine? top r (passed + 1) text >>= _) = _
    rw [readLine?_eq hword (hlines text List.mem_cons_self), PatternScript.Reading.readLines]
    exact ih (fun text ht => hlines text (List.mem_cons_of_mem _ ht)) (by omega)

end Reading

section Lines

theorem mem_linesFrom {read text : List Char} (h : text ∈ Text.linesFrom read cs) :
    text.Sublist (read.reverse ++ cs) := by
  fun_induction Text.linesFrom read cs with
  | case1 read =>
    obtain rfl := List.mem_singleton.1 h
    exact List.sublist_append_left _ _
  | case2 read rest ih =>
    rcases List.mem_cons.1 h with rfl | h
    · exact List.sublist_append_left _ _
    · exact (ih h).trans ((List.sublist_cons_self _ _).trans (List.sublist_append_right _ _))
  | case3 read c rest hc ih =>
    have hsame : (c :: read).reverse ++ rest = read.reverse ++ c :: rest := by simp
    exact hsame ▸ ih h

theorem length_linesFrom (read cs : List Char) :
    (Text.linesFrom read cs).length ≤ cs.length + 1 := by
  fun_induction Text.linesFrom read cs with
  | case1 => exact Nat.le_refl _
  | case2 read rest ih =>
    rw [List.length_cons, List.length_cons]
    omega
  | case3 read c rest hc ih =>
    rw [List.length_cons]
    omega

end Lines

/-- No operation goes wrong while a script is read, and what comes of it is what the reader of
characters gives. A word has 32 bits at least, and a text in memory has fewer bytes than the
greatest word. -/
theorem compile?_eq_compile {source : String} (hword : 2 ^ 32 - 1 ≤ top)
    (hsize : source.utf8ByteSize < top) :
    compile? top source = some (Script.compile source) := by
  have hbytes : (ofText source.toList).length = source.utf8ByteSize := by
    rw [← String.size_toByteArray, ← String.utf8Encode_toList, List.utf8Encode,
      List.size_toByteArray]
    rfl
  have hlines (text : List Char) (h : text ∈ Text.lines source.toList) :
      (ofText text).length ≤ top := by
    have := length_ofText_le (mem_linesFrom h)
    change _ ≤ (ofText source.toList).length at this
    omega
  have hcount : 0 + (Text.lines source.toList).length ≤ top := by
    have hlength := length_linesFrom [] source.toList
    have hchars := length_le_ofText source.toList
    change (Text.lines source.toList).length ≤ _ at hlength
    omega
  rw [compile?, Reading.readLines?_eq hword hlines hcount]
  rfl

def accentedSource : String :=
  "DEFINE PATTERN NAME=\"é\\\"字\" WIDTH=1 HEIGHT=1 DATA=\"1\"\nVAR $a = 3é"

theorem compile?_of_accents :
    2 ^ 32 - 1 ≤ 2 ^ 64 - 1 ∧ accentedSource.utf8ByteSize < 2 ^ 64 - 1 ∧
      compile? (2 ^ 64 - 1) accentedSource = some (Script.compile accentedSource) :=
  ⟨by decide, by decide, compile?_eq_compile (by decide) (by decide)⟩

end PatternScript.Bytes
