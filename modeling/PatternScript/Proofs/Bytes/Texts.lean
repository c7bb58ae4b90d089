import PatternScript.Bytes.Text

/-!
# Positions in a text

A position is good when it is the size of a beginning of the text: there the text can be cut,
and the byte at it is the first of the character that follows. A walk that judges bytes by a
property that all characters beyond ASCII share goes from one good position to another, since
it passes either all bytes of a character or none.
-/
namespace PatternScript.Bytes

variable {top : Nat} {p : Char → Bool} {text before mid rest : List Char} {pos start stop : Nat}
  {c : Char} {b : UInt8}

theorem ofText_append (cs cs' : List Char) : ofText (cs ++ cs') = ofText cs ++ ofText cs' :=
  List.flatMap_append

theorem ofText_cons (c : Char) (cs : List Char) :
    ofText (c :: cs) = String.utf8EncodeChar c ++ ofText cs := List.flatMap_cons

theorem length_ofText_cons (c : Char) (cs : List Char) :
    (ofText (c :: cs)).length = c.utf8Size + (ofText cs).length := by
  rw [ofText_cons, List.length_append, String.length_utf8EncodeChar]

theorem toText?_ofText (cs : List Char) : toText? (ofText cs) = some cs := by
  have hdecode : (ofText cs).toByteArray.utf8Decode? = some cs.toArray :=
    List.utf8Decode?_utf8Encode
  rw [toText?, hdecode]
  rfl

section Judging

def Narrow (p : Char → Bool) : Prop :=
  ∀ c c' : Char, 128 ≤ c.toNat → 128 ≤ c'.toNat → p c = p c'

theorem utf8Size_eq_one_iff : c.utf8Size = 1 ↔ c.toNat < 128 := by
  rw [Char.utf8Size_eq_one_iff, UInt32.le_iff_toNat_le]
  exact Nat.lt_succ_iff.symm

theorem toNat_charOf (b : UInt8) : (charOf b).toNat = b.toNat := by
  have hvalid : b.toNat.isValidChar := .inl (Nat.lt_trans b.toNat_lt (by decide))
  rw [charOf, Char.ofNat, dif_pos hvalid]
  rfl

theorem mem_utf8EncodeChar_of_ascii (hc : c.toNat < 128) (hb : b ∈ String.utf8EncodeChar c) :
    charOf b = c := by
  rw [String.utf8EncodeChar_eq_singleton (utf8Size_eq_one_iff.2 hc), List.mem_singleton] at hb
  refine Char.toNat_inj.1 ?_
  rw [toNat_charOf, hb]
  exact Nat.mod_eq_of_lt (Nat.lt_trans hc (by decide))

theorem mem_utf8EncodeChar_of_wide (hc : 128 ≤ c.toNat) (hb : b ∈ String.utf8EncodeChar c) :
    128 ≤ (charOf b).toNat := by
  have hwide : ¬ c.val.toNat ≤ 0x7f := Nat.not_le_of_gt hc
  have hvalue (n : Nat) (h : 128 ≤ n) (h' : n < 256) : 128 ≤ (UInt8.ofNat n).toNat := by
    rw [UInt8.toNat_ofNat', Nat.mod_eq_of_lt h']
    exact h
  rw [toNat_charOf]
  unfold String.utf8EncodeChar at hb
  rw [if_neg hwide] at hb
  split at hb
  · simp only [List.mem_cons, List.not_mem_nil, or_false] at hb
    rcases hb with rfl | rfl
    all_goals exact hvalue _ (by omega) (by omega)
  · split at hb
    · simp only [List.mem_cons, List.not_mem_nil, or_false] at hb
      rcases hb with rfl | rfl | rfl
      all_goals exact hvalue _ (by omega) (by omega)
    · simp only [List.mem_cons, List.not_mem_nil, or_false] at hb
      rcases hb with rfl | rfl | rfl | rfl
      all_goals exact hvalue _ (by omega) (by omega)

theorem judge_byte (hp : Narrow p) (hb : b ∈ String.utf8EncodeChar c) : p (charOf b) = p c := by
  by_cases hc : c.toNat < 128
  · rw [mem_utf8EncodeChar_of_ascii hc hb]
  · exact hp _ _ (mem_utf8EncodeChar_of_wide (Nat.le_of_not_lt hc) hb) (Nat.le_of_not_lt hc)

theorem Narrow.not (hp : Narrow p) : Narrow (!p ·) := by
  intro c c' hc hc'
  exact congrArg Bool.not (hp c c' hc hc')

theorem Narrow.and {q : Char → Bool} (hp : Narrow p) (hq : Narrow q) :
    Narrow fun c => p c && q c := by
  intro c c' hc hc'
  dsimp only
  rw [hp c c' hc hc', hq c c' hc hc']

theorem narrow_of_ascii (hp : ∀ c, p c = true → c.toNat < 128) : Narrow p := by
  have hfalse (c : Char) (hc : 128 ≤ c.toNat) : p c = false :=
    Bool.eq_false_iff.2 fun h => Nat.not_lt.2 hc (hp c h)
  intro c c' hc hc'
  rw [hfalse c hc, hfalse c' hc']

theorem narrow_beq {mark : Char} (hmark : mark.toNat < 128) : Narrow (· == mark) :=
  narrow_of_ascii fun _ h => beq_iff_eq.1 h ▸ hmark

theorem narrow_isAsciiBlank : Narrow Text.isAsciiBlank := by
  refine narrow_of_ascii fun c h => ?_
  simp only [Text.isAsciiBlank, Bool.or_eq_true, beq_iff_eq] at h
  rcases h with (((rfl | rfl) | rfl) | rfl) | rfl <;> decide

end Judging

section Cutting

theorem dropTo?_zero (cs : List Char) : dropTo? cs 0 = some cs := by
  cases cs <;> rfl

theorem takeTo?_zero (cs : List Char) : takeTo? cs 0 = some [] := by
  cases cs <;> rfl

theorem dropTo?_cons (c : Char) (cs : List Char) (pos : Nat) :
    dropTo? (c :: cs) (c.utf8Size + pos) = dropTo? cs pos := by
  obtain ⟨k, hk⟩ := Nat.exists_eq_succ_of_ne_zero (Nat.ne_of_gt c.utf8Size_pos)
  rw [hk, Nat.succ_add, dropTo?, if_pos (by omega)]
  congr 1
  omega

theorem takeTo?_cons (c : Char) (cs : List Char) (pos : Nat) :
    takeTo? (c :: cs) (c.utf8Size + pos) = (takeTo? cs pos).map (c :: ·) := by
  obtain ⟨k, hk⟩ := Nat.exists_eq_succ_of_ne_zero (Nat.ne_of_gt c.utf8Size_pos)
  rw [hk, Nat.succ_add, takeTo?, if_pos (by omega)]
  congr 2
  omega

theorem dropTo?_append (before rest : List Char) :
    dropTo? (before ++ rest) (ofText before).length = some rest := by
  induction before with
  | nil => exact dropTo?_zero rest
  | cons c before ih => rw [List.cons_append, length_ofText_cons, dropTo?_cons, ih]

theorem takeTo?_append (before rest : List Char) :
    takeTo? (before ++ rest) (ofText before).length = some before := by
  induction before with
  | nil => exact takeTo?_zero rest
  | cons c before ih =>
    rw [List.cons_append, length_ofText_cons, takeTo?_cons, ih]
    rfl

end Cutting

/-- Whether a text goes on with `rest` at a position. -/
def At (text : List Char) (pos : Nat) (rest : List Char) : Prop :=
  ∃ before, text = before ++ rest ∧ pos = (ofText before).length

namespace At

theorem zero (text : List Char) : At text 0 text := ⟨[], rfl, rfl⟩

theorem move (h : At text pos (mid ++ rest)) : At text (pos + (ofText mid).length) rest := by
  obtain ⟨before, rfl, rfl⟩ := h
  refine ⟨before ++ mid, (List.append_assoc _ _ _).symm, ?_⟩
  rw [ofText_append, List.length_append]

theorem dropTo?_eq (h : At text pos rest) : dropTo? text pos = some rest := by
  obtain ⟨before, rfl, rfl⟩ := h
  exact dropTo?_append before rest

theorem slice?_eq (h : At text pos (mid ++ rest)) :
    slice? text pos (pos + (ofText mid).length) = some mid := by
  rw [slice?, if_pos (Nat.le_add_right _ _), h.dropTo?_eq, Option.bind_some,
    Nat.add_sub_cancel_left, takeTo?_append]

theorem length_eq (h : At text pos rest) :
    (ofText text).length = pos + (ofText rest).length := by
  obtain ⟨before, rfl, rfl⟩ := h
  rw [ofText_append, List.length_append]

theorem drop_eq (h : At text pos rest) : (ofText text).drop pos = ofText rest := by
  obtain ⟨before, rfl, rfl⟩ := h
  rw [ofText_append, List.drop_left]

theorem end_iff (h : At text pos rest) : (ofText text).length ≤ pos ↔ rest = [] := by
  rw [h.length_eq]
  cases rest with
  | nil => simp [ofText]
  | cons c rest =>
    have := c.utf8Size_pos
    rw [length_ofText_cons]
    simp only [reduceCtorEq, iff_false]
    omega

theorem get?_nil (h : At text pos []) : (ofText text)[pos]? = none :=
  List.getElem?_eq_none (h.end_iff.2 rfl)

theorem get?_cons (h : At text pos (c :: rest)) : ∃ b, (ofText text)[pos]? = some b ∧
    ∀ p, Narrow p → p (charOf b) = p c := by
  obtain ⟨b, bytes, hbytes⟩ := List.exists_cons_of_ne_nil (String.utf8EncodeChar_ne_nil (c := c))
  refine ⟨b, ?_, fun p hp => judge_byte hp (hbytes ▸ List.mem_cons_self)⟩
  rw [← Nat.add_zero pos, ← List.getElem?_drop, h.drop_eq, ofText_cons, hbytes]
  rfl

theorem get?_mark (h : At text pos (c :: rest)) : ∃ b, (ofText text)[pos]? = some b ∧
    ∀ mark : Char, mark.toNat < 128 → (charOf b = mark ↔ c = mark) := by
  obtain ⟨b, hb, hjudge⟩ := h.get?_cons
  refine ⟨b, hb, fun mark hmark => ?_⟩
  have heq := hjudge _ (narrow_beq hmark)
  rw [← beq_iff_eq, heq, beq_iff_eq]

theorem get?_ascii (h : At text pos (c :: rest)) (hc : c.toNat < 128) :
    ∃ b, (ofText text)[pos]? = some b ∧ ofText [c] = [b] ∧ charOf b = c := by
  have hbyte : ofText [c] = [c.val.toUInt8] := by
    rw [ofText_cons, String.utf8EncodeChar_eq_singleton (utf8Size_eq_one_iff.2 hc)]
    rfl
  refine ⟨c.val.toUInt8, ?_, hbyte, mem_utf8EncodeChar_of_ascii hc ?_⟩
  · rw [← Nat.add_zero pos, ← List.getElem?_drop, h.drop_eq, ← List.singleton_append, ofText_append,
      hbyte]
    rfl
  · rw [String.utf8EncodeChar_eq_singleton (utf8Size_eq_one_iff.2 hc)]
    exact List.mem_singleton_self _

theorem lt_length (h : At text pos (c :: rest)) : pos < (ofText text).length := by
  have := c.utf8Size_pos
  rw [h.length_eq, length_ofText_cons]
  omega

theorem move_ascii (h : At text pos (c :: rest)) (hc : c.toNat < 128) :
    At text (pos + 1) rest := by
  have hmove : At text (pos + (ofText [c]).length) rest := move h
  rwa [length_ofText_cons, utf8Size_eq_one_iff.2 hc] at hmove

theorem judge_next (h : At text pos rest) (hp : Narrow p) (hzero : p (charOf 0) = false) :
    p (charOf ((ofText text)[pos]?.getD 0)) = rest.head?.any p := by
  cases rest with
  | nil =>
    rw [h.get?_nil]
    exact hzero
  | cons c rest =>
    obtain ⟨b, hb, hjudge⟩ := h.get?_cons
    rw [hb]
    exact hjudge p hp

end At

abbrev Found {α : Type} {P : Nat → Prop} {Q : List Char → Prop} (text : List Char)
    (a : α × { stop : Nat // P stop }) (b : α × { rest : List Char // Q rest }) : Prop :=
  a.1 = b.1 ∧ At text a.2.1 b.2.1

section Walking

theorem add?_eq (h : pos + stop ≤ top) : add? top pos stop = some ⟨pos + stop, rfl⟩ := if_pos h

theorem skip?_bytes {src bytes after : List UInt8} (hfit : src.length ≤ top)
    (hbytes : ∀ b ∈ bytes, p (charOf b) = true) (hafter : ∀ b ∈ after.head?, p (charOf b) = false)
    (hsrc : src.drop pos = bytes ++ after) (h : start ≤ pos) :
    skip? top p src start pos h =
      some ⟨pos + bytes.length, Nat.le_trans h (Nat.le_add_right _ _)⟩ := by
  induction bytes generalizing pos with
  | nil =>
    rw [skip?]
    split
    next hpos =>
      rw [List.drop_eq_getElem_cons hpos, List.nil_append] at hsrc
      rw [List.getElem?_eq_getElem hpos]
      have hstop := hafter src[pos] (by rw [← hsrc]; rfl)
      simp [hstop]
    next => rfl
  | cons b bytes ih =>
    have hpos : pos < src.length := by
      refine Nat.lt_of_not_le fun hle => ?_
      rw [List.drop_eq_nil_of_le hle] at hsrc
      cases hsrc
    rw [List.drop_eq_getElem_cons hpos, List.cons_append, List.cons.injEq] at hsrc
    obtain ⟨hb, hrest⟩ := hsrc
    have hgo := hbytes b List.mem_cons_self
    rw [skip?, dif_pos hpos, List.getElem?_eq_getElem hpos, hb]
    simp only [Option.bind_eq_bind, Option.bind_some, hgo, if_true]
    rw [add?_eq (Nat.le_trans hpos hfit), Option.bind_some]
    rw [ih (fun b hb => hbytes b (List.mem_cons_of_mem _ hb)) hrest]
    simp only [List.length_cons, Nat.add_assoc, Nat.add_comm 1]

theorem skip?_eq (hfit : (ofText text).length ≤ top) (hp : Narrow p) (hat : At text pos rest)
    (h : start ≤ pos) :
    skip? top p (ofText text) start pos h = some ⟨pos + (ofText (rest.takeWhile p)).length,
      Nat.le_trans h (Nat.le_add_right _ _)⟩ := by
  have hbytes : ∀ b ∈ ofText (rest.takeWhile p), p (charOf b) = true := by
    intro b hb
    obtain ⟨c, hc, hb⟩ := List.mem_flatMap.1 hb
    rw [judge_byte hp hb]
    exact List.all_eq_true.1 List.all_takeWhile c hc
  have hafter : ∀ b ∈ (ofText (rest.dropWhile p)).head?, p (charOf b) = false := by
    intro b hb
    have hhead := List.head?_dropWhile_not p rest
    cases hdrop : rest.dropWhile p with
    | nil => simp [hdrop, ofText] at hb
    | cons c after =>
      rw [hdrop] at hb hhead
      obtain ⟨b', bytes, hbytes⟩ :=
        List.exists_cons_of_ne_nil (String.utf8EncodeChar_ne_nil (c := c))
      rw [ofText_cons, hbytes, List.cons_append, List.head?_cons, Option.mem_some_iff] at hb
      rw [← hb, judge_byte hp (hbytes ▸ List.mem_cons_self)]
      exact hhead
  refine skip?_bytes hfit hbytes hafter ?_ h
  rw [hat.drop_eq, ← ofText_append, List.takeWhile_append_dropWhile]

theorem At.skip (hat : At text pos rest) (p : Char → Bool) :
    At text (pos + (ofText (rest.takeWhile p)).length) (rest.dropWhile p) ∧
      slice? text pos (pos + (ofText (rest.takeWhile p)).length) = some (rest.takeWhile p) := by
  rw [← List.takeWhile_append_dropWhile (p := p) (l := rest)] at hat
  exact ⟨hat.move, hat.slice?_eq⟩

end Walking

theorem find?_eq (p : Char → Bool) (cs : List Char) :
    find? p cs = if cs.dropWhile (!p ·) = [] then none
      else some (ofText (cs.takeWhile (!p ·))).length := by
  induction cs with
  | nil => rfl
  | cons c cs ih =>
    rw [find?, ih]
    cases hc : p c with
    | true => simp [hc, ofText]
    | false =>
      rw [List.dropWhile_cons_of_pos (by simp [hc]), List.takeWhile_cons_of_pos (by simp [hc]),
        length_ofText_cons]
      simp only [Bool.false_eq_true, if_false]
      split <;> rfl

theorem splitKeyword?_eq (line : List Char) : splitKeyword? line = some (splitKeyword line) := by
  have hsplit := List.takeWhile_append_dropWhile (p := (!Text.isAsciiBlank ·)) (l := line)
  rw [splitKeyword?, find?_eq, splitKeyword]
  split
  next stop hfind =>
    split at hfind
    next => cases hfind
    next =>
      cases hfind
      have htake := takeTo?_append (line.takeWhile (!Text.isAsciiBlank ·))
        (line.dropWhile (!Text.isAsciiBlank ·))
      have hdrop := dropTo?_append (line.takeWhile (!Text.isAsciiBlank ·))
        (line.dropWhile (!Text.isAsciiBlank ·))
      rw [hsplit] at htake hdrop
      simp only [htake, hdrop, Option.bind_eq_bind, Option.bind_some, Option.pure_def]
  next hfind =>
    split at hfind
    next hnil =>
      rw [hnil, List.append_nil] at hsplit
      rw [hsplit, hnil]
      rfl
    next => cases hfind

end PatternScript.Bytes
