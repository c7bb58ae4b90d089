import PatternScript.Bytes.Arguments
import PatternScript.Proofs.Agreement
import PatternScript.Proofs.Bytes.Texts
import PatternScript.Proofs.Printing.Capitals

/-!
# Argument lists by their bytes

No operation goes wrong while an argument list is read by its bytes, and what comes of it is
what the reader of characters gives. What was read of a text in quotes is always the bytes of
some characters, for a quote and a backslash are never part of another character.
-/
namespace PatternScript.Bytes

open Text (isAsciiBlank)

/-- Whether every operation of a checked reader succeeds, with a result that agrees. -/
def Runs {α β : Type} (R : α → β → Prop) (x : Checked α) (y : Except ParseCause β) : Prop :=
  ∃ r, x.run = some r ∧ Agrees Eq R r y

namespace Runs

variable {α β γ δ : Type} {R : α → β → Prop} {S : γ → δ → Prop} {x : Checked α}
  {y : Except ParseCause β} {f : α → Checked γ} {g : β → Except ParseCause δ}

theorem ok {a : α} {b : β} (h : R a b) : Runs R (pure a) (.ok b) := ⟨_, rfl, .ok h⟩

theorem error (cause : ParseCause) : Runs R (throw cause) (.error cause) := ⟨_, rfl, .error rfl⟩

theorem same (y : Except ParseCause α) : Runs Eq (ExceptT.mk (some y)) y := by
  refine ⟨y, rfl, ?_⟩
  cases y with
  | ok a => exact .ok rfl
  | error cause => exact .error rfl

theorem bind (h : Runs R x y) (hf : ∀ a b, R a b → Runs S (f a) (g b)) :
    Runs S (x >>= f) (y >>= g) := by
  obtain ⟨r, hx, hr⟩ := h
  cases hr with
  | ok ha =>
    obtain ⟨s, hs, hagrees⟩ := hf _ _ ha
    refine ⟨s, ?_, hagrees⟩
    change (x.run >>= _) = some s
    rw [hx]
    exact hs
  | error he =>
    refine ⟨.error _, ?_, .error he⟩
    change (x.run >>= _) = some _
    rw [hx]
    rfl

theorem check {o : Option α} {a : α} {f : α → Checked γ} {z : Except ParseCause δ}
    (h : o = some a) (hf : Runs S (f a) z) : Runs S (check o >>= f) z := by
  subst h
  exact hf

theorem bind_ok {b : β} {z : Except ParseCause δ} (h : Runs R x (.ok b))
    (hf : ∀ a, R a b → Runs S (f a) z) : Runs S (x >>= f) z := by
  obtain ⟨r, hx, hr⟩ := h
  cases hr with
  | ok ha =>
    obtain ⟨s, hs, hagrees⟩ := hf _ ha
    refine ⟨s, ?_, hagrees⟩
    change (x.run >>= _) = some s
    rw [hx]
    exact hs

theorem bind_error {cause : ParseCause} (h : Runs R x (.error cause)) :
    Runs S (x >>= f) (.error cause) := by
  obtain ⟨r, hx, hr⟩ := h
  cases hr with
  | error he =>
    refine ⟨.error _, ?_, .error he⟩
    change (x.run >>= _) = some _
    rw [hx]
    rfl

theorem throwIf {p : Prop} {_ : Decidable p} {cause : ParseCause} {go : PUnit → Checked α}
    {go' : PUnit → Except ParseCause β} (h : Runs R (go ⟨⟩) (go' ⟨⟩)) :
    Runs R (if p then throw cause >>= go else go ⟨⟩)
      (if p then throw cause >>= go' else go' ⟨⟩) := by
  split
  · exact .error cause
  · exact h

theorem eq_iff {y : Except ParseCause α} : Runs Eq x y ↔ x.run = some y := by
  constructor
  · rintro ⟨r, hx, hr⟩
    rw [hx]
    cases hr with
    | ok ha => rw [ha]
    | error he => rw [he]
  · intro hx
    rw [show x = ExceptT.mk (some y) from hx]
    exact same y

end Runs

namespace Arguments

variable {top start pos : Nat} {key : String} {src read : List UInt8} {b : UInt8}

section Quoted

theorem check_bind {α β : Type} (a : α) (f : α → Checked β) : check (some a) >>= f = f a := rfl

theorem readQuoted?_end (hpos : src[pos]? = none) (h : start ≤ pos) :
    readQuoted? top key src start read pos h = throw (.argument (.unterminatedText key)) := by
  rw [readQuoted?]
  split
  next => rfl
  next b hb => cases hpos.symm.trans hb

theorem readQuoted?_quote (hpos : src[pos]? = some b) (hb : charOf b = '"')
    (hfit : pos + 1 ≤ top) (h : start ≤ pos) :
    readQuoted? top key src start read pos h = pure (read, ⟨pos + 1, Nat.le_succ_of_le h⟩) := by
  rw [readQuoted?]
  split
  next hnone => cases hpos.symm.trans hnone
  next b' hb' =>
    cases hpos.symm.trans hb'
    rw [if_pos hb, add?_eq hfit]
    rfl

theorem readQuoted?_plain (hpos : src[pos]? = some b) (hquote : charOf b ≠ '"')
    (hslash : charOf b ≠ '\\') (hfit : pos + 1 ≤ top) (h : start ≤ pos) :
    readQuoted? top key src start read pos h =
      readQuoted? top key src start (read ++ [b]) (pos + 1) (Nat.le_succ_of_le h) := by
  rw [readQuoted?.eq_def top key src start read pos h]
  split
  next hnone => cases hpos.symm.trans hnone
  next b' hb' =>
    cases hpos.symm.trans hb'
    rw [if_neg hquote, if_neg hslash, add?_eq hfit]
    rfl

section Slash

variable (hpos : src[pos]? = some b) (hb : charOf b = '\\') (hfit : pos + 1 ≤ top) (h : start ≤ pos)
include hpos hb hfit

theorem readQuoted?_cut (hnext : src[pos + 1]? = none) :
    readQuoted? top key src start read pos h = throw (.argument (.unterminatedText key)) := by
  rw [readQuoted?]
  split
  next hnone => cases hpos.symm.trans hnone
  next b' hb' =>
    cases hpos.symm.trans hb'
    rw [if_neg (by rw [hb]; decide), if_pos hb, add?_eq hfit, check_bind]
    simp only [hnext]

variable {c : UInt8}

theorem readQuoted?_escape (hnext : src[pos + 1]? = some c)
    (hc : charOf c = '"' ∨ charOf c = '\\') (hfit' : pos + 2 ≤ top) :
    readQuoted? top key src start read pos h =
      readQuoted? top key src start (read ++ [c]) (pos + 2) (Nat.le_add_right_of_le h) := by
  rw [readQuoted?.eq_def top key src start read pos h]
  split
  next hnone => cases hpos.symm.trans hnone
  next b' hb' =>
    cases hpos.symm.trans hb'
    rw [if_neg (by rw [hb]; decide), if_pos hb, add?_eq hfit, check_bind]
    simp only [hnext]
    rw [if_pos hc, add?_eq hfit']
    rfl

theorem readQuoted?_slash (hnext : src[pos + 1]? = some c)
    (hc : ¬ (charOf c = '"' ∨ charOf c = '\\')) :
    readQuoted? top key src start read pos h =
      readQuoted? top key src start (read ++ [b]) (pos + 1) (Nat.le_succ_of_le h) := by
  rw [readQuoted?.eq_def top key src start read pos h]
  split
  next hnone => cases hpos.symm.trans hnone
  next b' hb' =>
    cases hpos.symm.trans hb'
    rw [if_neg (by rw [hb]; decide), if_pos hb, add?_eq hfit, check_bind]
    simp only [hnext]
    rw [if_neg hc]
    rfl

end Slash

theorem readQuoted?_bytes {bytes after : List UInt8} (hsize : src.length ≤ top)
    (hplain : ∀ b ∈ bytes, charOf b ≠ '"' ∧ charOf b ≠ '\\') (hsrc : src.drop pos = bytes ++ after)
    (h : start ≤ pos) :
    readQuoted? top key src start read pos h =
      readQuoted? top key src start (read ++ bytes) (pos + bytes.length)
        (Nat.le_add_right_of_le h) := by
  induction bytes generalizing read pos with
  | nil => simp
  | cons b bytes ih =>
    have hpos : pos < src.length := by
      refine Nat.lt_of_not_le fun hle => ?_
      rw [List.drop_eq_nil_of_le hle] at hsrc
      cases hsrc
    rw [List.drop_eq_getElem_cons hpos, List.cons_append, List.cons.injEq] at hsrc
    obtain ⟨hb, hrest⟩ := hsrc
    obtain ⟨hquote, hslash⟩ := hplain b List.mem_cons_self
    rw [readQuoted?_plain (hb ▸ List.getElem?_eq_getElem hpos) hquote hslash
      (Nat.le_trans hpos hsize), ih (fun b hb => hplain b (List.mem_cons_of_mem _ hb)) hrest]
    simp only [List.append_assoc, List.singleton_append, List.length_cons, Nat.add_assoc,
      Nat.add_comm 1]

def orUnterminated (key : String) :
    Option (List Char × List Char) → Except ParseCause (List Char × List Char)
  | some found => .ok found
  | none => .error (.argument (.unterminatedText key))

theorem runs_readQuoted? {text body : List Char} (key : String) (chars : List Char)
    (hsize : (ofText text).length ≤ top) (hat : At text pos body) (h : start ≤ pos) :
    Runs (fun a b => a.1 = ofText b.1 ∧ At text a.2.1 b.2)
      (readQuoted? top key (ofText text) start (ofText chars.reverse) pos h)
      (orUnterminated key (Arguments.readQuoted chars body)) := by
  fun_induction Arguments.readQuoted chars body generalizing pos with
  | case1 chars =>
    rw [readQuoted?_end hat.get?_nil]
    exact .error _
  | case2 chars rest =>
    obtain ⟨b, hb, -, hquote⟩ := hat.get?_ascii (by decide)
    rw [readQuoted?_quote hb hquote (Nat.le_trans hat.lt_length hsize)]
    exact .ok ⟨rfl, hat.move_ascii (by decide)⟩
  | case3 chars hquote =>
    obtain ⟨b, hb, -, hslash⟩ := hat.get?_ascii (by decide)
    have hat' := hat.move_ascii (by decide)
    rw [readQuoted?_cut hb hslash (Nat.le_trans hat.lt_length hsize) h hat'.get?_nil]
    exact .error _
  | case4 chars d tail hmark hquote ih =>
    obtain ⟨b, hb, -, hslash⟩ := hat.get?_ascii (by decide)
    have hat' := hat.move_ascii (by decide)
    have hd : d.toNat < 128 := by rcases hmark with rfl | rfl <;> decide
    obtain ⟨c, hc, hbytes, rfl⟩ := hat'.get?_ascii hd
    rw [readQuoted?_escape hb hslash (Nat.le_trans hat.lt_length hsize) h hc hmark
      (Nat.le_trans hat'.lt_length hsize), ← hbytes, ← ofText_append, ← List.reverse_cons]
    exact ih (hat'.move_ascii hd) _
  | case5 chars d tail hmark hquote ih =>
    obtain ⟨b, hb, hbytes, hslash⟩ := hat.get?_ascii (by decide)
    have hat' := hat.move_ascii (by decide)
    obtain ⟨c, hc, hjudge⟩ := hat'.get?_mark
    have hmark' : ¬ (charOf c = '"' ∨ charOf c = '\\') := by
      rwa [hjudge _ (by decide), hjudge _ (by decide)]
    rw [readQuoted?_slash hb hslash (Nat.le_trans hat.lt_length hsize) h hc hmark',
      ← hbytes, ← ofText_append, ← List.reverse_cons]
    exact ih hat' _
  | case6 chars c rest hquote hslash ih =>
    have hplain : ∀ b ∈ String.utf8EncodeChar c, charOf b ≠ '"' ∧ charOf b ≠ '\\' := by
      intro b hb
      have hjudge (mark : Char) (hmark : mark.toNat < 128) : (charOf b == mark) = (c == mark) :=
        judge_byte (narrow_beq hmark) hb
      rw [← beq_eq_false_iff_ne, ← beq_eq_false_iff_ne, hjudge _ (by decide), hjudge _ (by decide),
        beq_eq_false_iff_ne, beq_eq_false_iff_ne]
      exact ⟨hquote, hslash⟩
    have hsrc : (ofText text).drop pos = String.utf8EncodeChar c ++ ofText rest := by
      rw [hat.drop_eq, ofText_cons]
    have hone : ofText [c] = String.utf8EncodeChar c := List.flatMap_singleton _ _
    have hat' : At text (pos + (ofText [c]).length) rest := At.move hat
    rw [readQuoted?_bytes hsize hplain hsrc, ← hone, ← ofText_append, ← List.reverse_cons]
    exact ih hat' _

end Quoted

variable {text cs : List Char}

theorem isSeparated?_eq {stop : Nat} {rest : List Char} (hat : At text stop rest) :
    isSeparated? (ofText text) stop = some (rest.head?.all isAsciiBlank) := by
  rw [isSeparated?]
  cases rest with
  | nil => rw [if_neg (Nat.not_lt.2 (hat.end_iff.2 rfl))]; rfl
  | cons c rest =>
    obtain ⟨b, hb, hjudge⟩ := hat.get?_cons
    rw [if_pos hat.lt_length, hb, Option.map_some, hjudge _ narrow_isAsciiBlank]
    rfl

theorem runs_readValue? (hsize : (ofText text).length ≤ top) (hat : At text pos cs) :
    Runs (Found text) (readValue? top key text pos) (Arguments.readValue key cs) := by
  have hstart := (hat.skip isAsciiBlank).1
  have hskip := skip?_eq hsize narrow_isAsciiBlank hat (Nat.le_refl pos)
  generalize hx : readValue? top key text pos = x
  rw [Arguments.readValue]
  split
  next hnil =>
    have hend := hstart.end_iff.2 hnil
    rw [← hx, readValue?]
    refine Runs.check hskip ?_
    dsimp only
    rw [if_pos hend]
    exact .error _
  next body hbody =>
    change At text _ (Arguments.skipBlanks cs) at hstart
    rw [hbody] at hstart
    obtain ⟨b, hb, -, hquote⟩ := hstart.get?_ascii (by decide)
    have hread := runs_readQuoted? key [] hsize (hstart.move_ascii (by decide))
      (Nat.le_add_right_of_le (Nat.le_add_right pos _))
    rw [← hx, readValue?]
    refine Runs.check hskip ?_
    dsimp only
    rw [if_neg (Nat.not_le_of_gt hstart.lt_length)]
    refine Runs.check hb ?_
    rw [if_pos hquote]
    refine Runs.check (add?_eq (Nat.le_trans hstart.lt_length hsize)) ?_
    split
    next hnone =>
      rw [hnone] at hread
      exact .bind_error hread
    next value rest hsome =>
      rw [hsome] at hread
      refine .bind_ok hread fun a ha => ?_
      obtain ⟨bytes, stop, hstop⟩ := a
      obtain ⟨rfl, hrest⟩ := ha
      refine Runs.check (isSeparated?_eq hrest) ?_
      dsimp only
      cases hsep : rest.head?.all isAsciiBlank with
      | true => exact .check (toText?_ofText value) (.ok ⟨rfl, hrest⟩)
      | false => exact .error _
  next hnil hquote =>
    obtain ⟨c, rest, hvalue⟩ := List.exists_cons_of_ne_nil hnil
    change At text _ (Arguments.skipBlanks cs) at hstart
    have hfirst := hstart
    rw [hvalue] at hfirst
    obtain ⟨b, hb, hjudge⟩ := hfirst.get?_mark
    have hc : c ≠ '"' := by
      rintro rfl
      exact hquote rest hvalue
    rw [← hx, readValue?]
    refine Runs.check hskip ?_
    dsimp only
    rw [if_neg (Nat.not_le_of_gt hfirst.lt_length)]
    refine Runs.check hb ?_
    rw [if_neg (by rwa [hjudge _ (by decide)])]
    obtain ⟨hstop, hword⟩ := hstart.skip (!isAsciiBlank ·)
    refine Runs.check (skip?_eq hsize narrow_isAsciiBlank.not hstart _) (Runs.check hword ?_)
    refine .bind (.same _) fun token _ htoken => .ok ⟨htoken, hstop⟩

theorem narrow_inKey : Narrow fun c => c != '=' && !isAsciiBlank c :=
  (narrow_beq (by decide)).not.and narrow_isAsciiBlank.not

theorem runs_readArgument? (hsize : (ofText text).length ≤ top) (hat : At text pos cs) :
    Runs (Found text) (readArgument? top text pos) (Arguments.readArgument cs) := by
  obtain ⟨hstop, hword⟩ := hat.skip fun c => c != '=' && !isAsciiBlank c
  have hmark := (hstop.skip isAsciiBlank).1
  generalize hx : readArgument? top text pos = x
  rw [Arguments.readArgument]
  dsimp only
  split
  next hempty =>
    rw [← hx, readArgument?]
    refine Runs.check (skip?_eq hsize narrow_inKey hat _) (Runs.check hword ?_)
    dsimp only
    rw [if_pos (Text.upper_eq_nil_iff.2 hempty)]
    exact Runs.check hat.dropTo?_eq (.error _)
  next hword =>
    have hkey := mt Text.upper_eq_nil_iff.1 hword
    split
    next after hafter =>
      change At text _ (Arguments.skipBlanks _) at hmark
      rw [hafter] at hmark
      obtain ⟨b, hb, -, hequals⟩ := hmark.get?_ascii (by decide)
      rw [← hx, readArgument?]
      refine Runs.check (skip?_eq hsize narrow_inKey hat _) (Runs.check ‹_› ?_)
      dsimp only
      rw [if_neg hkey]
      refine Runs.check (skip?_eq hsize narrow_isAsciiBlank hstop _) ?_
      dsimp only
      rw [if_neg (Nat.not_le_of_gt hmark.lt_length)]
      refine Runs.check hb ?_
      rw [if_neg (not_not.2 hequals)]
      refine Runs.check (add?_eq (Nat.le_trans hmark.lt_length hsize)) ?_
      refine .bind (runs_readValue? hsize (hmark.move_ascii (by decide))) fun a v hv => ?_
      obtain ⟨token, rest⟩ := a
      exact .ok ⟨congrArg _ hv.1, hv.2⟩
    next hother =>
      rw [← hx, readArgument?]
      refine Runs.check (skip?_eq hsize narrow_inKey hat _) (Runs.check ‹_› ?_)
      dsimp only
      rw [if_neg hkey]
      refine Runs.check (skip?_eq hsize narrow_isAsciiBlank hstop _) ?_
      dsimp only
      change At text _ (Arguments.skipBlanks _) at hmark
      cases hrest : Arguments.skipBlanks (cs.dropWhile fun c => c != '=' && !isAsciiBlank c) with
      | nil =>
        rw [hrest] at hmark
        rw [if_pos (hmark.end_iff.2 rfl)]
        exact .error _
      | cons c rest =>
        have hc : c ≠ '=' := by
          rintro rfl
          exact hother rest hrest
        rw [hrest] at hmark
        obtain ⟨b, hb, hjudge⟩ := hmark.get?_mark
        rw [if_neg (Nat.not_le_of_gt hmark.lt_length)]
        refine Runs.check hb ?_
        rw [if_pos (by rwa [ne_eq, hjudge _ (by decide)])]
        exact .error _

theorem runs_readInto? (hsize : (ofText text).length ≤ top) (hat : At text pos cs)
    (read : PatternScript.Arguments) :
    Runs Eq (readInto? top text read pos) (Arguments.readInto read cs) := by
  induction hn : cs.length using Nat.strongRecOn generalizing cs pos read with | _ n ih =>
  subst hn
  have hstart := (hat.skip isAsciiBlank).1
  have hskip := skip?_eq hsize narrow_isAsciiBlank hat (Nat.le_refl pos)
  have hblanks := Arguments.length_skipBlanks_le cs
  change At text _ (Arguments.skipBlanks cs) at hstart
  generalize hx : readInto? top text read pos = x
  rw [Arguments.readInto]
  split
  next hnil =>
    rw [← hx, readInto?]
    refine Runs.check hskip ?_
    dsimp only
    rw [dif_pos (hstart.end_iff.2 hnil)]
    exact .ok rfl
  next c rest hcons =>
    rw [hcons] at hstart hblanks
    rw [← hx, readInto?]
    refine Runs.check hskip ?_
    dsimp only
    rw [dif_neg (Nat.not_le_of_gt hstart.lt_length)]
    refine .bind (runs_readArgument? hsize hstart) fun a b hab => ?_
    obtain ⟨⟨key, token⟩, next, hnext⟩ := a
    obtain ⟨⟨key', token'⟩, after, hafter⟩ := b
    obtain ⟨hsame, hat'⟩ := hab
    cases hsame
    dsimp only
    split
    next => exact .error _
    next => exact ih _ (Nat.lt_of_lt_of_le hafter hblanks) hat' _ rfl

theorem runs_parse? (hsize : (ofText cs).length ≤ top) :
    Runs Eq (parse? top cs) (Arguments.parse cs) :=
  runs_readInto? hsize (.zero cs) .empty

theorem runs_parseDeclared? (declared : List String) (hsize : (ofText cs).length ≤ top) :
    Runs Eq (parseDeclared? top declared cs) (Arguments.parseDeclared declared cs) := by
  refine .bind (runs_parse? hsize) fun args args' hargs => ?_
  subst hargs
  exact .bind (.same _) fun _ _ _ => .ok rfl

end Arguments

end PatternScript.Bytes
