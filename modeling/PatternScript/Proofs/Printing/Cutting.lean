import PatternScript.Proofs.Reading.Steps

/-!
# Cutting what was put together

Laws for texts that are made of known parts: a run of characters ends where the next part
begins, trimming leaves what neither begins nor ends with a blank, and the line that a keyword
and its arguments make is taken apart into these again.
-/
namespace PatternScript.Text

variable {p : Char → Bool} {cs cs' mid rest : List Char}

def Ends (p : Char → Bool) (rest : List Char) : Prop := ∀ c, rest.head? = some c → p c = false

theorem ends_nil (p : Char → Bool) : Ends p [] := nofun

theorem ends_cons {c : Char} (h : p c = false) : Ends p (c :: rest) := by
  intro c' hc'
  cases hc'
  exact h

theorem Ends.append (h : Ends p cs) (hne : cs ≠ []) (rest : List Char) : Ends p (cs ++ rest) := by
  cases cs with
  | nil => exact absurd rfl hne
  | cons c cs => exact h

theorem head?_all_of_ends (h : Ends (!p ·) rest) : rest.head?.all p = true := by
  cases rest with
  | nil => rfl
  | cons c rest => simpa using h c rfl

theorem takeWhile_of_ends (h : Ends p rest) : rest.takeWhile p = [] := by
  cases rest with
  | nil => rfl
  | cons c rest => rw [List.takeWhile_cons, h c rfl, if_neg Bool.false_ne_true]

theorem dropWhile_of_ends (h : Ends p rest) : rest.dropWhile p = rest := by
  cases rest with
  | nil => rfl
  | cons c rest => rw [List.dropWhile_cons, h c rfl, if_neg Bool.false_ne_true]

theorem takeWhile_append_of_ends (h : ∀ c ∈ cs, p c = true) (hrest : Ends p rest) :
    (cs ++ rest).takeWhile p = cs := by
  rw [List.takeWhile_append_of_pos h, takeWhile_of_ends hrest, List.append_nil]

theorem dropWhile_append_of_ends (h : ∀ c ∈ cs, p c = true) (hrest : Ends p rest) :
    (cs ++ rest).dropWhile p = rest := by
  rw [List.dropWhile_append_of_pos h, dropWhile_of_ends hrest]

theorem cut?_append {mark : Char} (h : mark ∉ cs) : cut? mark (cs ++ mark :: rest) = some (cs, rest) := by
  have hcs : ∀ c ∈ cs, (c != mark) = true := by
    intro c hc
    exact bne_iff_ne.2 fun heq => h (heq ▸ hc)
  have hrest : Ends (· != mark) (mark :: rest) := ends_cons (bne_self_eq_false' mark)
  rw [cut?, dropWhile_append_of_ends hcs hrest, takeWhile_append_of_ends hcs hrest]

theorem cut?_eq_none {mark : Char} (h : mark ∉ cs) : cut? mark cs = none := by
  have hcs : ∀ c ∈ cs, (c != mark) = true := by
    intro c hc
    exact bne_iff_ne.2 fun heq => h (heq ▸ hc)
  have hdrop := dropWhile_append_of_ends hcs (ends_nil (· != mark))
  rw [List.append_nil] at hdrop
  rw [cut?, hdrop]

structure Trimmed (cs : List Char) : Prop where
  head : Ends isBlank cs
  last : Ends isBlank cs.reverse

theorem trimStart_of_ends (h : Ends isBlank cs) : trimStart cs = cs := dropWhile_of_ends h

theorem trimEnd_of_ends (h : Ends isBlank cs.reverse) : trimEnd cs = cs := by
  rw [trimEnd, dropWhile_of_ends h, List.reverse_reverse]

theorem Trimmed.trim_eq (h : Trimmed cs) : trim cs = cs := by
  rw [trim, trimStart_of_ends h.head, trimEnd_of_ends h.last]

theorem trim_cons_blank {c : Char} (hc : isBlank c = true) : trim (c :: cs) = trim cs := by
  rw [trim, trimStart, List.dropWhile_cons, if_pos hc]
  rfl

theorem Trimmed.nil : Trimmed [] := ⟨nofun, nofun⟩

theorem nonblank_of_any (h : cs.any isBlank = false) : ∀ c ∈ cs, isBlank c = false := by
  simpa using h

theorem trimmed_of_word (h : ∀ c ∈ cs, isBlank c = false) : Trimmed cs := by
  refine ⟨?_, ?_⟩
  · intro c hc
    exact h c (List.mem_of_mem_head? hc)
  · intro c hc
    exact h c (List.mem_reverse.1 (List.mem_of_mem_head? hc))

theorem Trimmed.append (h : Trimmed cs) (h' : Trimmed cs') (hne : cs ≠ []) (hne' : cs' ≠ [])
    (mid : List Char) : Trimmed (cs ++ mid ++ cs') := by
  constructor
  · rw [List.append_assoc]
    exact h.head.append hne _
  · rw [List.reverse_append]
    exact h'.last.append (by simpa using hne') _

theorem trim_append_blank (h : Trimmed cs) {c : Char} (hc : isBlank c = true) :
    trim (cs ++ [c]) = cs := by
  cases cs with
  | nil => simp [trim, trimStart, trimEnd, hc]
  | cons c' cs =>
    rw [trim, trimStart_of_ends (h.head.append (List.cons_ne_nil _ _) _), trimEnd,
      List.reverse_append, List.reverse_singleton, List.singleton_append, List.dropWhile_cons,
      if_pos hc, dropWhile_of_ends h.last, List.reverse_reverse]

theorem words_of_nil (hskip : cs.dropWhile isBlank = []) : words cs = [] := by
  rw [words]
  split
  next => rfl
  next hcons =>
    rw [hskip] at hcons
    cases hcons

theorem words_of_cons {c : Char} (hskip : cs.dropWhile isBlank = c :: rest) :
    words cs = (c :: rest.takeWhile (!isBlank ·)) :: words (rest.dropWhile (!isBlank ·)) := by
  rw [words]
  split
  next hnil =>
    rw [hskip] at hnil
    cases hnil
  next hcons =>
    rw [hskip] at hcons
    cases hcons
    rfl

theorem words_cons_blank {c : Char} (hc : isBlank c = true) : words (c :: cs) = words cs := by
  have hskip : (c :: cs).dropWhile isBlank = cs.dropWhile isBlank := by
    rw [List.dropWhile_cons, if_pos hc]
  cases hcs : cs.dropWhile isBlank with
  | nil => rw [words_of_nil hcs, words_of_nil (hskip.trans hcs)]
  | cons d rest => rw [words_of_cons hcs, words_of_cons (hskip.trans hcs)]

theorem words_append (h : ∀ c ∈ cs, isBlank c = false) (hne : cs ≠ [])
    (hrest : Ends (!isBlank ·) rest) : words (cs ++ rest) = cs :: words rest := by
  obtain ⟨c, cs, rfl⟩ := List.exists_cons_of_ne_nil hne
  obtain ⟨hc, hcs⟩ := List.forall_mem_cons.1 h
  have hword : ∀ c ∈ cs, (!isBlank c) = true := by simpa using hcs
  have hskip : (c :: (cs ++ rest)).dropWhile isBlank = c :: (cs ++ rest) :=
    dropWhile_of_ends (ends_cons hc)
  rw [List.cons_append, words_of_cons hskip, takeWhile_append_of_ends hword hrest,
    dropWhile_append_of_ends hword hrest]

theorem linesFrom_append {read : List Char} (h : '\n' ∉ cs) :
    linesFrom read (cs ++ '\n' :: rest) = (read.reverse ++ cs) :: linesFrom [] rest := by
  induction cs generalizing read with
  | nil => simp [linesFrom]
  | cons c cs ih =>
    obtain ⟨hc, hcs⟩ := not_or.1 (mt List.mem_cons.2 h)
    rw [List.cons_append, linesFrom, if_neg (Ne.symm hc), ih hcs]
    simp

theorem lines_flatMap {texts : List (List Char)} (h : ∀ text ∈ texts, '\n' ∉ text) :
    lines (texts.flatMap (· ++ ['\n'])) = texts ++ [[]] := by
  induction texts with
  | nil => rfl
  | cons text texts ih =>
    obtain ⟨htext, htexts⟩ := List.forall_mem_cons.1 h
    rw [List.flatMap_cons, List.append_assoc, List.singleton_append, lines, linesFrom_append htext,
      ← lines, ih htexts]
    rfl

theorem isAsciiBlank_eq_false {c : Char} (h : isBlank c = false) : isAsciiBlank c = false := by
  cases hascii : isAsciiBlank c with
  | false => rfl
  | true => rw [isBlank_of_isAsciiBlank hascii] at h; cases h

theorem ends_isAsciiBlank (h : Ends isBlank cs) : Ends isAsciiBlank cs :=
  fun c hc => isAsciiBlank_eq_false (h c hc)

section Joined

variable {word : List Char} {words : List (List Char)}

theorem intercalate_cons (word : List Char) (words : List (List Char)) :
    [' '].intercalate (word :: words) = word ++ words.flatMap (' ' :: ·) := by
  induction words generalizing word with
  | nil => simp
  | cons word' words ih =>
    rw [List.intercalate_cons_cons, ih, List.flatMap_cons]
    simp

theorem flatMap_eq_intercalate (hne : words ≠ []) :
    words.flatMap (' ' :: ·) = ' ' :: [' '].intercalate words := by
  obtain ⟨word, words, rfl⟩ := List.exists_cons_of_ne_nil hne
  rw [intercalate_cons, List.flatMap_cons]
  rfl

theorem mem_intercalate {c : Char} (h : c ∈ [' '].intercalate words) :
    c = ' ' ∨ ∃ word ∈ words, c ∈ word := by
  cases words with
  | nil => cases h
  | cons word words =>
    rw [intercalate_cons, List.mem_append, List.mem_flatMap] at h
    grind

theorem trimmed_intercalate (h : ∀ word ∈ words, word ≠ [] ∧ Trimmed word) :
    Trimmed ([' '].intercalate words) := by
  have hjoined {ws : List (List Char)} (hws : ∀ word ∈ ws, word ≠ [] ∧ Trimmed word)
      (hne : ws ≠ []) : [' '].intercalate ws ≠ [] ∧ Trimmed ([' '].intercalate ws) := by
    induction ws with
    | nil => exact absurd rfl hne
    | cons word ws ih =>
      obtain ⟨hword, hws⟩ := List.forall_mem_cons.1 hws
      by_cases hlast : ws = []
      · rw [hlast, List.intercalate_singleton]
        exact hword
      · obtain ⟨hrest, htrimmed⟩ := ih hws hlast
        rw [List.intercalate_cons_of_ne_nil hlast]
        refine ⟨by simp [hword.1], ?_⟩
        exact hword.2.append htrimmed hword.1 hrest [' ']
  by_cases hne : words = []
  · rw [hne]
    exact .nil
  · exact (hjoined h hne).2

end Joined

def headline (keyword args : List Char) : List Char :=
  if args = [] then keyword else keyword ++ ' ' :: args

section Headline

variable {keyword args : List Char}

theorem trimmed_headline (hword : ∀ c ∈ keyword, isBlank c = false) (hne : keyword ≠ [])
    (hargs : Trimmed args) : Trimmed (headline keyword args) := by
  have hkeyword := trimmed_of_word hword
  rw [headline]
  split
  next => exact hkeyword
  next hargsne =>
    have h := hkeyword.append hargs hne hargsne [' ']
    rwa [List.append_assoc] at h

theorem splitKeyword_headline (hword : ∀ c ∈ keyword, isBlank c = false)
    (hupper : upper keyword = keyword) (hargs : Trimmed args) :
    splitKeyword (headline keyword args) = (keyword, args) := by
  have hascii : ∀ c ∈ keyword, (!isAsciiBlank c) = true := by
    intro c hc
    rw [isAsciiBlank_eq_false (hword c hc)]
    rfl
  rw [splitKeyword, headline]
  split
  next hnil =>
    have hends := ends_nil (!isAsciiBlank ·)
    have htake := takeWhile_append_of_ends hascii hends
    have hdrop := dropWhile_append_of_ends hascii hends
    rw [List.append_nil] at htake hdrop
    rw [htake, hdrop, hupper, hnil]
    rfl
  next =>
    have hends : Ends (!isAsciiBlank ·) (' ' :: args) := ends_cons rfl
    rw [takeWhile_append_of_ends hascii hends, dropWhile_append_of_ends hascii hends, hupper,
      trim_cons_blank rfl, hargs.trim_eq]

theorem statement?_headline (hword : ∀ c ∈ keyword, isBlank c = false) (hne : keyword ≠ [])
    (hremark : keyword.head? ≠ some '#') (hupper : upper keyword = keyword)
    (hargs : Trimmed args) :
    statement? (headline keyword args) = some (String.ofList keyword, args) := by
  have hhead : (headline keyword args).head? = keyword.head? := by
    rw [headline]
    split
    · rfl
    · cases keyword with
      | nil => exact absurd rfl hne
      | cons c keyword => rfl
  rw [statement?, (trimmed_headline hword hne hargs).trim_eq]
  split
  next heq =>
    rw [heq] at hhead
    exact absurd (List.head?_eq_none_iff.1 hhead.symm) hne
  next heq =>
    rw [heq] at hhead
    exact absurd hhead.symm hremark
  next => rw [splitKeyword_headline hword hupper hargs]

end Headline

end PatternScript.Text
