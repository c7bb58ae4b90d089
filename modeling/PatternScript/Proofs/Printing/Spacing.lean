import PatternScript.Proofs.Printing.Lists

/-!
# Argument lists in any order and spacing

However many ASCII blanks stand between the arguments and around their equals signs, and in
whatever order the arguments come, the map that is read holds their values under their keys in
upper case. A list in which a key comes twice is refused, whatever its values look like.
-/
namespace PatternScript.Arguments

open Text (Ends isAsciiBlank upper)

/-- What may stand between quotes: no quote, unless a backslash protects it. -/
inductive QuotedBody : List Char → Prop
  | nil : QuotedBody []
  | plain {c : Char} {body : List Char} (hquote : c ≠ '"') (hslash : c ≠ '\\')
      (hbody : QuotedBody body) : QuotedBody (c :: body)
  | escaped (c : Char) {body : List Char} (hbody : QuotedBody body) : QuotedBody ('\\' :: c :: body)

def IsValueText (value : List Char) : Prop :=
  (value ≠ [] ∧ value.head? ≠ some '"' ∧ ∀ c ∈ value, isAsciiBlank c = false) ∨
    ∃ body, value = '"' :: (body ++ ['"']) ∧ QuotedBody body

/-- An argument as it stands in a list, with the blanks before it and around its equals sign. -/
structure Piece where
  lead : List Char
  key : List Char
  gap : List Char
  after : List Char
  value : List Char

namespace Piece

def chars (p : Piece) : List Char := p.lead ++ (p.key ++ (p.gap ++ '=' :: (p.after ++ p.value)))

def name (p : Piece) : String := String.ofList (upper p.key)

structure Proper (p : Piece) : Prop where
  blank : ∀ c ∈ p.lead ++ p.gap ++ p.after, isAsciiBlank c = true
  key_ne_nil : p.key ≠ []
  key_plain : ∀ c ∈ p.key, isKeyChar c = true
  value : IsValueText p.value

theorem proper_of_all {p : Piece} (hblank : (p.lead ++ p.gap ++ p.after).all isAsciiBlank = true)
    (hne : p.key ≠ []) (hplain : p.key.all isKeyChar = true) (hvalue : IsValueText p.value) :
    p.Proper :=
  ⟨List.all_eq_true.1 hblank, hne, List.all_eq_true.1 hplain, hvalue⟩

end Piece

/-- A list of arguments: each is proper, and all but the first have a blank before them. -/
structure Spaced (ps : List Piece) : Prop where
  proper : ∀ p ∈ ps, p.Proper
  apart : ∀ p ∈ ps.tail, p.lead ≠ []

theorem quotedBody_escape (s : List Char) : QuotedBody (Token.escape s) := by
  induction s with
  | nil => exact .nil
  | cons c s ih =>
    rw [Token.escape]
    split
    next => exact .escaped c ih
    next h =>
      simp only [Bool.or_eq_true, beq_iff_eq, not_or] at h
      exact .plain h.1 h.2 ih

theorem isValueText_chars {t : Token} (h : t.IsValue) : IsValueText t.chars := by
  rcases Token.isWord_or_quoted h with hword | ⟨s, -, hchars⟩
  · exact .inl ⟨hword.ne_nil, hword.unquoted,
      fun c hc => Text.isAsciiBlank_eq_false (hword.nonblank c hc)⟩
  · exact .inr ⟨_, hchars, quotedBody_escape _⟩

theorem readQuoted_body {body : List Char} (h : QuotedBody body) (read rest : List Char) :
    ∃ text, readQuoted read (body ++ '"' :: rest) = some (text, rest) := by
  induction h generalizing read with
  | nil =>
    rw [List.nil_append, readQuoted.eq_def]
    simp
  | @plain c body hquote hslash _ ih =>
    rw [List.cons_append, readQuoted.eq_def]
    simp only [hquote, hslash, if_false]
    exact ih _
  | @escaped c body _ ih =>
    rw [List.cons_append, List.cons_append, readQuoted, if_neg (by decide), if_pos rfl]
    by_cases hc : c = '"' ∨ c = '\\'
    · simp only [hc, if_true]
      exact ih _
    · obtain ⟨hquote, hslash⟩ := not_or.1 hc
      rw [if_neg hc, readQuoted.eq_def]
      simp only [hquote, hslash, if_false]
      exact ih _

section Reading

variable {p : Piece} {ps : List Piece} {read : Arguments} {cs rest trail value : List Char}

theorem IsValueText.ne_nil (h : IsValueText value) : value ≠ [] := by
  rcases h with ⟨hne, -⟩ | ⟨body, rfl, -⟩
  · exact hne
  · exact List.cons_ne_nil _ _

theorem IsValueText.ends (h : IsValueText value) : Ends isAsciiBlank value := by
  rcases h with ⟨-, -, hplain⟩ | ⟨body, rfl, -⟩
  · exact fun c hc => hplain c (List.mem_of_mem_head? hc)
  · exact Text.ends_cons (by decide)

theorem readValue_text (key : String) (hvalue : IsValueText value)
    (hskip : skipBlanks cs = value ++ rest) (hrest : Ends (!isAsciiBlank ·) rest) :
    (∃ cause, readValue key cs = .error cause) ∨
      ∃ t hle, readValue key cs = .ok (t, ⟨rest, hle⟩) := by
  rcases hvalue with ⟨hne, hunquoted, hplain⟩ | ⟨body, rfl, hbody⟩
  · obtain ⟨hle, hread⟩ := readValue_unquoted key hne hunquoted hplain hskip hrest
    cases hword : Token.ofWord value with
    | error cause =>
      rw [hword] at hread
      exact .inl ⟨cause, hread⟩
    | ok t =>
      rw [hword] at hread
      exact .inr ⟨t, hle, hread⟩
  · obtain ⟨text, htext⟩ := readQuoted_body hbody [] rest
    have hquoted : skipBlanks cs = '"' :: (body ++ '"' :: rest) := by simp [hskip]
    obtain ⟨hle, hread⟩ := readValue_quoted key htext hquoted hrest
    exact .inr ⟨_, hle, hread⟩

namespace Piece

theorem Proper.skipBlanks_after (h : p.Proper) (rest : List Char) :
    skipBlanks (p.after ++ (p.value ++ rest)) = p.value ++ rest :=
  Text.dropWhile_append_of_ends (fun c hc => h.blank c (List.mem_append_right _ hc))
    (h.value.ends.append h.value.ne_nil rest)

theorem Proper.readInto_eq (h : p.Proper) (read : Arguments) (rest : List Char) :
    readInto read (p.chars ++ rest) =
      (readValue p.name (p.after ++ (p.value ++ rest)) >>= fun found =>
        if read.contains p.name then .error (.argument (.duplicateKey p.name))
        else readInto (read.set p.name found.1) found.2.1) := by
  have hlead : ∀ c ∈ p.lead, isAsciiBlank c = true := fun c hc =>
    h.blank c (List.mem_append_left _ (List.mem_append_left _ hc))
  have hgap : ∀ c ∈ p.gap, isAsciiBlank c = true := fun c hc =>
    h.blank c (List.mem_append_left _ (List.mem_append_right _ hc))
  have hkey : Ends isAsciiBlank p.key := by
    intro c hc
    have hplain := h.key_plain c (List.mem_of_mem_head? hc)
    rw [isKeyChar, Bool.and_eq_true] at hplain
    simpa using hplain.2
  have hequals : Ends isAsciiBlank ('=' :: (p.after ++ (p.value ++ rest))) :=
    Text.ends_cons (by decide)
  -- The text after the key, whose first character cannot belong to the key.
  have hafter : Ends isKeyChar (p.gap ++ '=' :: (p.after ++ (p.value ++ rest))) := by
    cases hcs : p.gap with
    | nil => exact Text.ends_cons (by decide)
    | cons c gap =>
      refine Text.ends_cons ?_
      simp [isKeyChar, hgap c (by rw [hcs]; exact List.mem_cons_self)]
  have hskip : skipBlanks (p.chars ++ rest) =
      p.key ++ (p.gap ++ '=' :: (p.after ++ (p.value ++ rest))) := by
    simp only [chars, List.append_assoc, List.cons_append]
    exact Text.dropWhile_append_of_ends hlead (hkey.append h.key_ne_nil _)
  obtain ⟨hlt, hread⟩ := readArgument_key h.key_ne_nil h.key_plain hafter
    (Text.dropWhile_append_of_ends hgap hequals)
  rw [readInto_skipped hskip (by simp [h.key_ne_nil]), hread, bind_assoc]
  rfl

end Piece

theorem ends_not_of_blank (h : ∀ c ∈ cs, isAsciiBlank c = true) : Ends (!isAsciiBlank ·) cs := by
  intro c hc
  simp [h c (List.mem_of_mem_head? hc)]

theorem Spaced.tail {p : Piece} (h : Spaced (p :: ps)) : Spaced ps :=
  ⟨fun q hq => h.proper q (List.mem_cons_of_mem _ hq), fun q hq => h.apart q (List.mem_of_mem_tail hq)⟩

theorem Spaced.ends {p : Piece} (h : Spaced (p :: ps)) (htrail : Ends (!isAsciiBlank ·) trail) :
    Ends (!isAsciiBlank ·) (ps.flatMap Piece.chars ++ trail) := by
  cases ps with
  | nil => exact htrail
  | cons q qs =>
    have hq : q ∈ p :: q :: qs := List.mem_cons_of_mem _ List.mem_cons_self
    obtain ⟨b, lead, hlead⟩ := List.exists_cons_of_ne_nil (h.apart q List.mem_cons_self)
    have hb : isAsciiBlank b = true := (h.proper q hq).blank b (by simp [hlead])
    rw [List.flatMap_cons, Piece.chars, hlead]
    exact Text.ends_cons (by simp [hb])

/-- The map that holds the value of each piece under its name, besides what was read before. -/
def collect (read : Arguments) (value : Piece → Token) (ps : List Piece) : Arguments :=
  ps.foldl (fun args p => args.set p.name (value p)) read

theorem contains_set (read : Arguments) (name other : String) (t : Token) :
    (read.set name t).contains other = (other == name || read.contains other) := by
  simp only [NameMap.contains, NameMap.get?_set]
  by_cases h : other = name <;> simp [h]

theorem forall_new_set {t : Token} (hp : p.name ∉ ps.map Piece.name)
    (hnew : ∀ q ∈ ps, read.contains q.name = false) :
    ∀ q ∈ ps, (read.set p.name t).contains q.name = false := by
  intro q hq
  have hne : q.name ≠ p.name := fun heq => hp (heq ▸ List.mem_map_of_mem hq)
  simp [contains_set, hne, hnew q hq]

theorem get?_collect {value : Piece → Token} {name : String} {t : Token}
    (hnodup : (ps.map Piece.name).Nodup) (hnew : ∀ p ∈ ps, read.contains p.name = false) :
    (collect read value ps).get? name = some t ↔
      (∃ p ∈ ps, p.name = name ∧ value p = t) ∨ read.get? name = some t := by
  induction ps generalizing read with
  | nil => simp [collect]
  | cons p ps ih =>
    obtain ⟨hp, hnodup⟩ := List.nodup_cons.1 hnodup
    obtain ⟨hfresh, hnew⟩ := List.forall_mem_cons.1 hnew
    have hunread : read.get? p.name = none := by simpa [NameMap.contains] using hfresh
    rw [collect, List.foldl_cons, ← collect, ih hnodup (forall_new_set hp hnew), NameMap.get?_set]
    by_cases hname : name = p.name
    · simp [hname, hunread, or_comm]
    · simp [hname, Ne.symm hname]

theorem readInto_spaced {value : Piece → Token} (h : Spaced ps)
    (hvalue : ∀ p ∈ ps, (value p).IsValue ∧ p.value = (value p).chars)
    (hnodup : (ps.map Piece.name).Nodup) (hnew : ∀ p ∈ ps, read.contains p.name = false)
    (htrail : ∀ c ∈ trail, isAsciiBlank c = true) :
    readInto read (ps.flatMap Piece.chars ++ trail) = .ok (collect read value ps) := by
  induction ps generalizing read with
  | nil =>
    have hskip : skipBlanks trail = [] := by
      have hdrop := Text.dropWhile_append_of_ends htrail (Text.ends_nil _)
      rwa [List.append_nil] at hdrop
    exact readInto_nil hskip
  | cons p ps ih =>
    obtain ⟨hp, hnodup⟩ := List.nodup_cons.1 hnodup
    obtain ⟨hfresh, hnew⟩ := List.forall_mem_cons.1 hnew
    obtain ⟨⟨htoken, hchars⟩, hvalue⟩ := List.forall_mem_cons.1 hvalue
    have hproper := h.proper p List.mem_cons_self
    have hskip := hproper.skipBlanks_after (ps.flatMap Piece.chars ++ trail)
    rw [hchars] at hskip
    have hends := h.ends (ends_not_of_blank htrail)
    obtain ⟨hle, hread⟩ : ∃ hle, readValue p.name _ = .ok (value p, ⟨_, hle⟩) :=
      readValue_chars htoken hskip hends
    rw [List.flatMap_cons, List.append_assoc, hproper.readInto_eq, hchars, hread]
    change (if read.contains p.name then _ else _) = _
    rw [hfresh]
    exact ih h.tail hvalue hnodup (forall_new_set hp hnew)

theorem readInto_repeated (h : Spaced ps) (htrail : Ends (!isAsciiBlank ·) trail)
    (hrepeated : (∃ p ∈ ps, read.contains p.name = true) ∨ ¬ (ps.map Piece.name).Nodup) :
    ∃ cause, readInto read (ps.flatMap Piece.chars ++ trail) = .error cause := by
  induction ps generalizing read with
  | nil => simp at hrepeated
  | cons p ps ih =>
    have hproper := h.proper p List.mem_cons_self
    rw [List.flatMap_cons, List.append_assoc, hproper.readInto_eq]
    rcases readValue_text p.name hproper.value (hproper.skipBlanks_after _) (h.ends htrail) with
      ⟨cause, hread⟩ | ⟨t, hle, hread⟩
    · rw [hread]
      exact ⟨cause, rfl⟩
    · rw [hread]
      change ∃ cause, (if read.contains p.name then _ else _) = Except.error cause
      cases hknown : read.contains p.name with
      | true => exact ⟨_, rfl⟩
      | false =>
        -- The name is new, so one of the names after it is read already or comes twice.
        refine ih h.tail ?_
        rcases hrepeated with ⟨q, hq, hqread⟩ | hdup
        · rcases List.mem_cons.1 hq with rfl | hq
          · rw [hknown] at hqread
            cases hqread
          · exact .inl ⟨q, hq, by simp [contains_set, hqread]⟩
        · rw [List.map_cons, List.nodup_cons, not_and_or, not_not] at hdup
          rcases hdup with hmem | hdup
          · obtain ⟨q, hq, hname⟩ := List.mem_map.1 hmem
            exact .inl ⟨q, hq, by simp [contains_set, hname]⟩
          · exact .inr hdup

end Reading

/-- Arguments with different names, their values written as tokens are, are read into the map of
these values, whatever their order and the blanks between them. If two names are equal the list
is refused, whatever has the form of a value there and whatever follows. -/
theorem parse_spaced {ps : List Piece} (h : Spaced ps) :
    ((ps.map Piece.name).Nodup → ∀ value : Piece → Token,
      (∀ p ∈ ps, (value p).IsValue ∧ p.value = (value p).chars) →
      ∀ trail, (∀ c ∈ trail, isAsciiBlank c = true) →
        ∃ args, parse (ps.flatMap Piece.chars ++ trail) = .ok args ∧
          ∀ name t, args.get? name = some t ↔ ∃ p ∈ ps, p.name = name ∧ value p = t) ∧
    (¬ (ps.map Piece.name).Nodup → ∀ rest, rest.head?.all isAsciiBlank = true →
      ∃ cause, parse (ps.flatMap Piece.chars ++ rest) = .error cause) := by
  constructor
  · intro hnodup value hvalue trail htrail
    have hnew : ∀ p ∈ ps, (NameMap.empty : Arguments).contains p.name = false := fun _ _ => rfl
    refine ⟨collect .empty value ps, readInto_spaced h hvalue hnodup hnew htrail, fun name t => ?_⟩
    rw [get?_collect hnodup hnew, NameMap.get?_empty]
    simp
  · intro hdup rest hrest
    have hends : Ends (!isAsciiBlank ·) rest := by
      intro c hc
      simpa [hc] using hrest
    exact readInto_repeated h hends (.inr hdup)

theorem parse_spaced_of_sharp_s :
    (∃ args, parse "x =\t\"a \\\"b\"\n ß=-$N ".toList = .ok args ∧
      args.get? "X" = some (.text "a \"b") ∧ args.get? "SS" = some (.var ⟨"$N", true⟩)) ∧
    ∃ cause, parse "ss=1 ß = -$N =".toList = .error cause := by
  have hvar : (Token.var ⟨"$N", true⟩).IsValue := ⟨['n'], rfl, by decide +kernel⟩
  have htext : (Token.text "a \"b").IsValue := trivial
  have hint : (Token.int 1).IsValue := trivial
  let x : Piece := ⟨[], ['x'], [' '], ['\t'], (Token.text "a \"b").chars⟩
  let ss : Piece := ⟨[], ['s', 's'], [], [], (Token.int 1).chars⟩
  let sharp (lead gap : List Char) : Piece :=
    ⟨lead, ['ß'], gap, gap, (Token.var ⟨"$N", true⟩).chars⟩
  have hx : x.Proper := Piece.proper_of_all rfl (by decide) rfl (isValueText_chars htext)
  have hss : ss.Proper := Piece.proper_of_all rfl (by decide) rfl (isValueText_chars hint)
  have hnear : (sharp ['\n', ' '] []).Proper :=
    Piece.proper_of_all rfl (by decide) rfl (isValueText_chars hvar)
  have hfar : (sharp [' '] [' ']).Proper :=
    Piece.proper_of_all rfl (by decide) rfl (isValueText_chars hvar)
  have hdistinct : Spaced [x, sharp ['\n', ' '] []] :=
    ⟨by simp [hx, hnear], by simp [sharp]⟩
  have hequal : Spaced [ss, sharp [' '] [' ']] := ⟨by simp [hss, hfar], by simp [sharp]⟩
  constructor
  · obtain ⟨args, hread, hget⟩ := (parse_spaced hdistinct).1 (by decide +kernel)
      (fun p => if p.key = ['x'] then .text "a \"b" else .var ⟨"$N", true⟩)
      (by simp [x, sharp, hvar, htext]) [' '] (List.all_eq_true.1 rfl)
    refine ⟨args, hread, (hget _ _).2 ⟨x, by simp, ?_, rfl⟩,
      (hget _ _).2 ⟨sharp ['\n', ' '] [], by simp, ?_, rfl⟩⟩ <;> decide +kernel
  · exact (parse_spaced hequal).2 (by decide +kernel) [' ', '='] (by decide)

end PatternScript.Arguments
