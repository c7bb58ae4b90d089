import PatternScript.Proofs.Printing.Tokens

/-!
# Written argument lists

A list that was read holds what can be written: keys in upper case without a blank or an
equals sign, and values of one line. Written in the order of its keys and read again, it is
the same list.
-/
namespace PatternScript

open Text (Ends Trimmed isBlank isAsciiBlank upper)

namespace NameMap

universe u

variable {α : Type u} {name : String} {value : α}

theorem setEntry_last {es : List (String × α)} (h : ∀ e ∈ es, e.1 < name) :
    setEntry name value es = es ++ [(name, value)] := by
  induction es with
  | nil => rfl
  | cons e es ih =>
    obtain ⟨he, hes⟩ := List.forall_mem_cons.1 h
    rw [setEntry, if_neg (String.lt_asymm he), if_neg (String.ne_of_lt he).symm, ih hes]
    rfl

theorem contains_eq_false {m : NameMap α} (h : ∀ e ∈ m.entries, e.1 < name) :
    m.contains name = false := by
  rw [contains, get?, Option.isSome_eq_false_iff, Option.isNone_iff_eq_none,
    List.lookup_eq_none_iff]
  intro e he
  exact bne_iff_ne.2 (String.ne_of_lt (h e he)).symm

end NameMap

namespace Arguments

def isKeyChar (c : Char) : Bool := c != '=' && !isAsciiBlank c

structure IsEntry (e : String × Token) : Prop where
  key_ne_nil : e.1.toList ≠ []
  key_plain : ∀ c ∈ e.1.toList, isKeyChar c = true
  key_upper : upper e.1.toList = e.1.toList
  value : e.2.IsValue
  oneLine : e.2.OneLine

def entryChars (e : String × Token) : List Char := e.1.toList ++ '=' :: e.2.chars

def written (args : Arguments) : List Char := [' '].intercalate (args.entries.map entryChars)

section Reading

variable {read : Arguments} {e : String × Token} {cs cs' key gap after rest : List Char} {t : Token}

theorem readArgument_key (hne : key ≠ []) (hkey : ∀ c ∈ key, isKeyChar c = true)
    (hgap : Ends isKeyChar gap) (hequals : skipBlanks gap = '=' :: after) :
    ∃ hlt : ∀ rest : { rest : List Char // rest.length ≤ after.length },
        rest.1.length < (key ++ gap).length,
      readArgument (key ++ gap) = (readValue (String.ofList (upper key)) after >>= fun found =>
        .ok ((String.ofList (upper key), found.1), ⟨found.2.1, hlt found.2⟩)) := by
  have htake : (key ++ gap).takeWhile (fun c => c != '=' && !isAsciiBlank c) = key :=
    Text.takeWhile_append_of_ends hkey hgap
  have hdrop : (key ++ gap).dropWhile (fun c => c != '=' && !isAsciiBlank c) = gap :=
    Text.dropWhile_append_of_ends hkey hgap
  have hlt (rest : { rest : List Char // rest.length ≤ after.length }) :
      rest.1.length < (key ++ gap).length := by
    have hlength := length_skipBlanks_le gap
    have hle := rest.2
    rw [hequals, List.length_cons] at hlength
    rw [List.length_append]
    omega
  refine ⟨hlt, ?_⟩
  rw [readArgument]
  simp only [htake, hne, if_false]
  split
  next after' hafter =>
    rw [hdrop, hequals] at hafter
    cases hafter
    rfl
  next hother =>
    rw [hdrop] at hother
    exact absurd hequals (hother after)

theorem readArgument_chars (hne : key ≠ []) (hkey : ∀ c ∈ key, isKeyChar c = true)
    (hgap : Ends isKeyChar gap) (hequals : skipBlanks gap = '=' :: after) (ht : t.IsValue)
    (hskip : skipBlanks after = t.chars ++ rest) (hrest : Ends (!isAsciiBlank ·) rest) :
    ∃ hlt, readArgument (key ++ gap) = .ok ((String.ofList (upper key), t), ⟨rest, hlt⟩) := by
  obtain ⟨hle, hvalue⟩ :
      ∃ hle, readValue (String.ofList (upper key)) after = .ok (t, ⟨rest, hle⟩) :=
    readValue_chars ht hskip hrest
  obtain ⟨hlt, hread⟩ := readArgument_key hne hkey hgap hequals
  rw [hvalue] at hread
  exact ⟨hlt ⟨rest, hle⟩, hread⟩

theorem readArgument_entry (he : IsEntry e) (hrest : Ends (!isAsciiBlank ·) rest) :
    ∃ hlt, readArgument (entryChars e ++ rest) = .ok (e, ⟨rest, hlt⟩) := by
  have hskip : skipBlanks (e.2.chars ++ rest) = e.2.chars ++ rest :=
    Text.dropWhile_of_ends ((Text.ends_isAsciiBlank (Token.trimmed_chars he.value).head).append
      (Token.chars_ne_nil he.value) rest)
  have hgap : Ends isKeyChar ('=' :: (e.2.chars ++ rest)) := Text.ends_cons rfl
  have hread := readArgument_chars he.key_ne_nil he.key_plain hgap rfl he.value hskip hrest
  rwa [he.key_upper, String.ofList_toList, ← List.cons_append, ← List.append_assoc] at hread

theorem skipBlanks_entry (he : IsEntry e) (rest : List Char) :
    skipBlanks (' ' :: (entryChars e ++ rest)) = entryChars e ++ rest := by
  obtain ⟨c, key, hkey⟩ := List.exists_cons_of_ne_nil he.key_ne_nil
  have hc : isKeyChar c = true := he.key_plain c (by rw [hkey]; exact List.mem_cons_self)
  have hends : Ends isAsciiBlank (entryChars e ++ rest) := by
    rw [entryChars, hkey]
    refine Text.ends_cons ?_
    rw [isKeyChar, Bool.and_eq_true] at hc
    simpa using hc.2
  exact Text.dropWhile_of_ends hends

theorem readInto_nil (hskip : skipBlanks cs = []) : readInto read cs = .ok read := by
  rw [readInto]
  split
  next => rfl
  next hcons =>
    rw [hskip] at hcons
    cases hcons

theorem readInto_cons {c : Char} (hskip : skipBlanks cs = c :: rest) :
    readInto read cs = (readArgument (c :: rest) >>= fun argument =>
      if read.contains argument.1.1 then .error (.argument (.duplicateKey argument.1.1))
      else readInto (read.set argument.1.1 argument.1.2) argument.2.1) := by
  rw [readInto]
  split
  next hnil =>
    rw [hskip] at hnil
    cases hnil
  next hcons =>
    rw [hskip] at hcons
    cases hcons
    rfl

theorem readInto_cons_blank {c : Char} (hc : isAsciiBlank c = true) :
    readInto read (c :: cs) = readInto read cs := by
  have hskip : skipBlanks (c :: cs) = skipBlanks cs := by
    rw [skipBlanks, skipBlanks, List.dropWhile_cons, if_pos hc]
  cases hcs : skipBlanks cs with
  | nil => rw [readInto_nil hcs, readInto_nil (hskip.trans hcs)]
  | cons d rest => rw [readInto_cons hcs, readInto_cons (hskip.trans hcs)]

theorem readInto_skipped (hskip : skipBlanks cs = cs') (hne : cs' ≠ []) :
    readInto read cs = (readArgument cs' >>= fun argument =>
      if read.contains argument.1.1 then .error (.argument (.duplicateKey argument.1.1))
      else readInto (read.set argument.1.1 argument.1.2) argument.2.1) := by
  obtain ⟨c, tail, rfl⟩ := List.exists_cons_of_ne_nil hne
  exact readInto_cons hskip

theorem readInto_argument {hlt : rest.length < cs'.length} (hskip : skipBlanks cs = cs')
    (hread : readArgument cs' = .ok (e, ⟨rest, hlt⟩)) (hnew : read.contains e.1 = false) :
    readInto read cs = readInto (read.set e.1 e.2) rest := by
  have hne : cs' ≠ [] := by
    rintro rfl
    cases hlt
  rw [readInto_skipped hskip hne, hread]
  change (if read.contains e.1 then _ else _) = _
  rw [hnew]
  rfl

theorem readInto_entries {es : List (String × Token)} (hes : ∀ e ∈ es, IsEntry e)
    (hsorted : (read.entries ++ es).Pairwise (fun a b => a.1 < b.1)) :
    readInto read ((es.map entryChars).flatMap (' ' :: ·)) =
      .ok ⟨read.entries ++ es, hsorted⟩ := by
  induction es generalizing read with
  | nil =>
    rw [List.map_nil, List.flatMap_nil, readInto_nil rfl]
    simp
  | cons e es ih =>
    obtain ⟨he, hes⟩ := List.forall_mem_cons.1 hes
    have hbelow : ∀ e' ∈ read.entries, e'.1 < e.1 := fun e' he' =>
      (List.pairwise_append.1 hsorted).2.2 e' he' e List.mem_cons_self
    have hset : (read.set e.1 e.2).entries = read.entries ++ [e] := NameMap.setEntry_last hbelow
    have hends : Ends (!isAsciiBlank ·) ((es.map entryChars).flatMap (' ' :: ·)) := by
      cases es with
      | nil => exact Text.ends_nil _
      | cons => exact Text.ends_cons rfl
    obtain ⟨hlt, hread⟩ := readArgument_entry he hends
    have hsorted' : ((read.set e.1 e.2).entries ++ es).Pairwise (fun a b => a.1 < b.1) := by
      rw [hset]
      simpa using hsorted
    rw [List.map_cons, List.flatMap_cons, List.cons_append,
      readInto_argument (skipBlanks_entry he _) hread (NameMap.contains_eq_false hbelow),
      ih hes hsorted']
    simp only [hset, List.append_assoc, List.singleton_append]

theorem parse_written {args : Arguments} (h : ∀ e ∈ args.entries, IsEntry e) :
    parse args.written = .ok args := by
  have hsorted : ((NameMap.empty : Arguments).entries ++ args.entries).Pairwise
      (fun a b => a.1 < b.1) := args.sorted
  have hread : readInto .empty ((args.entries.map entryChars).flatMap (' ' :: ·)) = .ok args :=
    readInto_entries h hsorted
  rw [parse, written]
  by_cases hnil : args.entries.map entryChars = []
  · rw [hnil] at hread ⊢
    exact hread
  · rw [Text.flatMap_eq_intercalate hnil, readInto_cons_blank rfl] at hread
    exact hread

theorem trimmed_written {args : Arguments} (h : ∀ e ∈ args.entries, IsEntry e)
    (hkeys : ∀ key ∈ args.names, ∀ c ∈ key.toList, isBlank c = false) : Trimmed args.written := by
  refine Text.trimmed_intercalate fun word hword => ?_
  obtain ⟨e, he, rfl⟩ := List.mem_map.1 hword
  have hkey := Text.trimmed_of_word (hkeys e.1 (List.mem_map_of_mem he))
  have hvalue := Token.trimmed_chars (h e he).value
  have htrimmed :=
    hkey.append hvalue (h e he).key_ne_nil (Token.chars_ne_nil (h e he).value) ['=']
  rw [List.append_assoc] at htrimmed
  exact ⟨by simp [entryChars], htrimmed⟩

theorem oneLine_written {args : Arguments} (h : ∀ e ∈ args.entries, IsEntry e) :
    '\n' ∉ args.written := by
  intro hfeed
  rcases Text.mem_intercalate hfeed with hspace | ⟨word, hword, hmem⟩
  · cases hspace
  · obtain ⟨e, he, rfl⟩ := List.mem_map.1 hword
    rw [entryChars, List.mem_append, List.mem_cons] at hmem
    rcases hmem with hkey | hequals | hvalue
    · exact absurd ((h e he).key_plain '\n' hkey) (by decide)
    · cases hequals
    · exact (h e he).oneLine hvalue

end Reading

section Legibility

variable {read args : Arguments} {key : String} {cs : List Char} {t : Token}

theorem mem_of_readQuoted {before text rest : List Char}
    (h : readQuoted before cs = some (text, rest)) :
    (∀ c ∈ text, c ∈ before ∨ c ∈ cs) ∧ ∀ c ∈ rest, c ∈ cs := by
  fun_induction readQuoted before cs with
  | case1 => cases h
  | case2 before rest' =>
    cases h
    simp_all
  | case3 => cases h
  | case4 before tail d hq hb ih =>
    have := ih h
    grind
  | case5 before tail d hq hb ih =>
    have := ih h
    grind
  | case6 before c rest' hq hb ih =>
    have := ih h
    grind

theorem isValue_of_readValue {rest : { rest : List Char // rest.length ≤ cs.length }}
    (h : readValue key cs = .ok (t, rest)) (hfeed : '\n' ∉ cs) :
    t.IsValue ∧ t.OneLine ∧ '\n' ∉ rest.1 := by
  have hskip : '\n' ∉ skipBlanks cs := fun hmem => hfeed ((List.dropWhile_sublist _).mem hmem)
  rw [readValue] at h
  split at h
  next => cases h
  next body hbody =>
    split at h
    next => cases h
    next text rest' hquoted =>
      obtain ⟨htext, hrest⟩ := mem_of_readQuoted hquoted
      have hbodyFeed : '\n' ∉ body := fun hmem => hskip (hbody ▸ List.mem_cons_of_mem _ hmem)
      split at h
      next =>
        cases h
        refine ⟨trivial, Token.oneLine_text ?_, fun hmem => hbodyFeed (hrest _ hmem)⟩
        rw [String.toList_ofList]
        intro hmem
        rcases htext _ hmem with hnil | hmem
        · cases hnil
        · exact hbodyFeed hmem
      next => cases h
  next =>
    obtain ⟨token, hword, h⟩ := bind_eq_ok.1 h
    cases h
    have hvalue := Token.isValue_of_ofWord hword fun hmem =>
      hskip ((List.takeWhile_sublist _).mem hmem)
    exact ⟨hvalue.1, hvalue.2, fun hmem => hskip ((List.dropWhile_sublist _).mem hmem)⟩

theorem isKeyChar_of_mem_upper {key : List Char} (h : ∀ c ∈ key, isKeyChar c = true) :
    ∀ c ∈ upper key, isKeyChar c = true := by
  intro c hc
  rcases Text.of_mem_upper hc with hkept | hletter
  · exact h c hkept
  · have hne {d : Char} (hd : d.toNat < 65) : c ≠ d := by
      rintro rfl
      omega
    simp [isKeyChar, isAsciiBlank, hne]

theorem isEntry_of_readArgument {e : String × Token}
    {rest : { rest : List Char // rest.length < cs.length }}
    (h : readArgument cs = .ok (e, rest)) (hfeed : '\n' ∉ cs) :
    IsEntry e ∧ '\n' ∉ rest.1 := by
  rw [readArgument] at h
  simp only at h
  split at h
  next => cases h
  next hne =>
    split at h
    next after hequals =>
      obtain ⟨⟨token, rest'⟩, hvalue, h⟩ := bind_eq_ok.1 h
      cases h
      have hafter : '\n' ∉ after := by
        intro hmem
        have hskip : '\n' ∈ skipBlanks (cs.dropWhile fun c => c != '=' && !isAsciiBlank c) := by
          rw [hequals]
          exact List.mem_cons_of_mem _ hmem
        exact hfeed ((List.dropWhile_sublist _).mem ((List.dropWhile_sublist _).mem hskip))
      obtain ⟨hvalue, honeLine, hrest⟩ := isValue_of_readValue hvalue hafter
      have hkey : ∀ c ∈ cs.takeWhile (fun c => c != '=' && !isAsciiBlank c), isKeyChar c = true :=
        fun c hc => List.all_eq_true.1 List.all_takeWhile c hc
      refine ⟨⟨?_, ?_, ?_, hvalue, honeLine⟩, hrest⟩
      · rw [String.toList_ofList]
        exact mt Text.upper_eq_nil_iff.1 hne
      · rw [String.toList_ofList]
        exact isKeyChar_of_mem_upper hkey
      · rw [String.toList_ofList, Text.upper_upper]
    next => cases h

theorem isEntry_of_readInto (h : readInto read cs = .ok args) (hfeed : '\n' ∉ cs)
    (hread : ∀ e ∈ read.entries, IsEntry e) : ∀ e ∈ args.entries, IsEntry e := by
  fun_induction readInto read cs with
  | case1 =>
    cases h
    exact hread
  | case2 read cs c rest hcs ih =>
    obtain ⟨⟨⟨key, token⟩, after, hafter⟩, hargument, h⟩ := bind_eq_ok.1 h
    have hskip : '\n' ∉ c :: rest := fun hmem =>
      hfeed ((List.dropWhile_sublist _).mem (hcs ▸ hmem : '\n' ∈ skipBlanks cs))
    obtain ⟨hentry, hrest⟩ := isEntry_of_readArgument hargument hskip
    simp only at h
    split at h
    · cases h
    · refine ih key token after hafter h hrest ?_
      intro e he
      rcases NameMap.mem_setEntry he with rfl | he
      · exact hentry
      · exact hread e he

end Legibility

end Arguments

end PatternScript
