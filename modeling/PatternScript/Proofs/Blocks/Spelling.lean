import PatternScript.Proofs.Reading.Growth
import PatternScript.Proofs.Reading.Steps

/-!
# The lines of a command tree

The tree of a script and the keywords of its source say the same thing in two ways. `Spells`
relates them, one constructor for each form that a command takes on the page, and asks that
each command could be read where it stands. A reading that has met no error keeps the two in
step: the lines read so far spell what stands before each open block and, up to where the next
line comes, what the block holds.
-/
namespace PatternScript

/-- Whether some keywords with their lines are those of certain commands in turn. The commands
are read where the variables of the first list are declared; those of the second are when
they are over. -/
inductive Spells : List String → List (Nat × String) → List Command → List String → Prop where
  | nil {d : List String} : Spells d [] [] d
  | define {line : Nat} {d d' : List String} {ls : List (Nat × String)} {cs : List Command} :
      Spells d ls cs d' → Spells d ((line, "DEFINE") :: ls) cs d'
  | act {line : Nat} {a : Action} {d d' : List String} {ls : List (Nat × String)}
      {cs : List Command} : (Command.act line a).Legible d →
      Spells (d ++ (Command.act line a).declares) ls cs d' →
      Spells d ((line, a.keyword) :: ls) (.act line a :: cs) d'
  | loop {line stop : Nat} {count : Token} {d d₁ d' : List String}
      {inner ls : List (Nat × String)} {body cs : List Command} :
      (Command.loop line count body).Legible d → Spells d inner body d₁ → Spells d₁ ls cs d' →
      Spells d ((line, "REPEAT") :: (inner ++ (stop, "ENDREPEAT") :: ls))
        (.loop line count body :: cs) d'
  | choice {line stop : Nat} {condition : List Token} {d d₁ d' : List String}
      {inner ls : List (Nat × String)} {yes cs : List Command} :
      (Command.choice line condition yes []).Legible d → Spells d inner yes d₁ →
      Spells d₁ ls cs d' →
      Spells d ((line, "IF") :: (inner ++ (stop, "ENDIF") :: ls))
        (.choice line condition yes [] :: cs) d'
  | turned {line turn stop : Nat} {condition : List Token} {d d₁ d₂ d' : List String}
      {inner other ls : List (Nat × String)} {yes no cs : List Command} :
      (Command.choice line condition yes no).Legible d → Spells d inner yes d₁ →
      Spells d₁ other no d₂ → Spells d₂ ls cs d' →
      Spells d ((line, "IF") :: (inner ++ (turn, "ELSE") :: (other ++ (stop, "ENDIF") :: ls)))
        (.choice line condition yes no :: cs) d'

theorem Spells.append {d d₁ d' : List String} {ls ls' : List (Nat × String)}
    {cs cs' : List Command} (h : Spells d ls cs d₁) (h' : Spells d₁ ls' cs' d') :
    Spells d (ls ++ ls') (cs ++ cs') d' := by
  induction h with
  | nil => exact h'
  | define _ ih => exact .define (ih h')
  | act hread _ ih => exact .act hread (ih h')
  | loop hread hbody _ _ ih => simpa using hbody.loop hread (ih h')
  | choice hread hyes _ _ ih => simpa using hyes.choice hread (ih h')
  | turned hread hyes hno _ _ _ ih => simpa using hyes.turned hread hno (ih h')

theorem Spells.push {d d₁ d' : List String} {ls ms : List (Nat × String)} {cs : Array Command}
    {c : Command} (h : Spells d ls cs.toList d₁) (hc : Spells d₁ ms [c] d') :
    Spells d (ls ++ ms) (cs.push c).toList d' := by
  rw [Array.toList_push]
  exact h.append hc

/-- Whether some lines are those of certain commands and of the open blocks after them, the
innermost of which comes first. -/
inductive Spelled (commands : List Command) :
    List PendingBlock → List (Nat × String) → List String → Prop where
  | top {d : List String} {ls : List (Nat × String)} :
      Spells [] ls commands d → Spelled commands [] ls d
  | loop {line : Nat} {count : Token} {body : Array Command} {outer : List PendingBlock}
      {d d' : List String} {ls inner : List (Nat × String)} :
      (Command.loop line count []).Legible d → Spelled commands outer ls d →
      Spells d inner body.toList d' →
      Spelled commands (.loop line count body :: outer) (ls ++ (line, "REPEAT") :: inner) d'
  | choice {line : Nat} {condition : List Token} {yes : Array Command}
      {outer : List PendingBlock} {d d' : List String} {ls inner : List (Nat × String)} :
      (Command.choice line condition [] []).Legible d → Spelled commands outer ls d →
      Spells d inner yes.toList d' →
      Spelled commands (.choice line condition yes none :: outer)
        (ls ++ (line, "IF") :: inner) d'
  | turned {line turn : Nat} {condition : List Token} {yes no : Array Command}
      {outer : List PendingBlock} {d d₁ d' : List String}
      {ls inner other : List (Nat × String)} :
      (Command.choice line condition [] []).Legible d → Spelled commands outer ls d →
      Spells d inner yes.toList d₁ → Spells d₁ other no.toList d' →
      Spelled commands (.choice line condition yes (some no) :: outer)
        (ls ++ (line, "IF") :: (inner ++ (turn, "ELSE") :: other)) d'

namespace Reading

variable {r r' : Reading} {ls ms : List (Nat × String)} {line : Nat} {keyword : String}
  {args : List Char}

def Spelled (r : Reading) (ls : List (Nat × String)) : Prop :=
  PatternScript.Spelled r.commands.toList r.blocks ls r.declared

theorem spelled_push {c : Command} {declared : List String} (h : r.Spelled ls)
    (hc : Spells r.declared ms [c] declared) :
    ({ r with declared }.push c).Spelled (ls ++ ms) := by
  unfold Spelled at h ⊢
  unfold push
  generalize r.blocks = blocks at h ⊢
  cases h with
  | top h => exact .top (h.push hc)
  | loop hread houter hbody =>
    rw [List.append_assoc]
    exact houter.loop hread (hbody.push hc)
  | choice hread houter hyes =>
    rw [List.append_assoc]
    exact houter.choice hread (hyes.push hc)
  | turned hread houter hyes hno =>
    rw [List.append_assoc, List.cons_append, List.append_assoc]
    exact houter.turned hread hyes (hno.push hc)

theorem spelled_define (h : r.Spelled ls) : r.Spelled (ls ++ [(line, "DEFINE")]) := by
  have hdefine {d d' : List String} {ls : List (Nat × String)} {cs : List Command}
      (h : Spells d ls cs d') : Spells d (ls ++ [(line, "DEFINE")]) cs d' := by
    simpa using h.append (.define .nil)
  unfold Spelled at h ⊢
  generalize r.blocks = blocks at h ⊢
  cases h with
  | top h => exact .top (hdefine h)
  | loop hread houter hbody =>
    rw [List.append_assoc]
    exact houter.loop hread (hdefine hbody)
  | choice hread houter hyes =>
    rw [List.append_assoc]
    exact houter.choice hread (hdefine hyes)
  | turned hread houter hyes hno =>
    rw [List.append_assoc, List.cons_append, List.append_assoc]
    exact houter.turned hread hyes (hdefine hno)

theorem spelled_turnToElse (h : r.Spelled ls) (herrors : (r.turnToElse line).errors = #[]) :
    (r.turnToElse line).Spelled (ls ++ [(line, "ELSE")]) := by
  unfold Spelled at h ⊢
  unfold turnToElse at herrors ⊢
  split at herrors
  next start condition yes outer hblocks =>
    rw [hblocks] at h
    cases h with
    | choice hread houter hyes =>
      rw [List.append_assoc]
      exact houter.turned hread hyes .nil
  next => simp [refuse] at herrors
  next => simp [refuse] at herrors
  next => simp [refuse] at herrors

theorem spelled_close {kind : BlockKind} (h : r.Spelled ls)
    (herrors : (r.close line kind).errors = #[]) :
    (r.close line kind).Spelled (ls ++ [(line, kind.terminator)]) := by
  unfold close at herrors ⊢
  split at herrors
  next b outer hblocks =>
    split at herrors
    next hkind =>
      rw [if_pos hkind]
      subst hkind
      unfold Spelled at h
      rw [hblocks] at h
      cases h with
      | @loop _ _ _ _ d _ _ _ hread houter hbody =>
        have houter : Spelled { r with blocks := outer, declared := d } _ := houter
        rw [List.append_assoc]
        exact spelled_push houter (hbody.loop hread .nil)
      | @choice _ _ _ _ d _ _ _ hread houter hyes =>
        have houter : Spelled { r with blocks := outer, declared := d } _ := houter
        rw [List.append_assoc]
        exact spelled_push houter (hyes.choice hread .nil)
      | @turned _ _ _ _ _ _ d _ _ _ _ _ hread houter hyes hno =>
        have houter : Spelled { r with blocks := outer, declared := d } _ := houter
        rw [List.append_assoc, List.cons_append, List.append_assoc]
        exact spelled_push houter (hyes.turned hread hno .nil)
    next => simp [refuse] at herrors
  next => simp [refuse] at herrors

theorem spelled_of_outcome (h : Outcome r line keyword args r') (hls : r.Spelled ls)
    (hargs : '\n' ∉ args) (herrors : r'.errors = #[]) :
    r'.Spelled (ls ++ [(line, keyword)]) := by
  cases h with
  | defines hkeyword =>
    subst hkeyword
    exact spelled_define hls
  | refuses hmark hcause => simp [refuse] at herrors
  | @acts warnings a hkeyword hread =>
    subst hkeyword
    have hls : Spelled { r with warnings } ls := hls
    exact spelled_push hls (.act ⟨args, hargs, hread⟩ .nil)
  | declares hkeyword hcause => simp [refuse] at herrors
  | opensLoop hkeyword hread =>
    subst hkeyword
    exact hls.loop ⟨args, hargs, hread⟩ .nil
  | opensFaultyLoop hkeyword hcause => simp [refuse] at herrors
  | opensChoice hkeyword hread =>
    subst hkeyword
    exact hls.choice ⟨args, hargs, hread⟩ .nil
  | opensFaultyChoice hkeyword hcause => simp [refuse] at herrors
  | @turns warnings hkeyword =>
    subst hkeyword
    have hls : Spelled { r with warnings } ls := hls
    exact spelled_turnToElse hls herrors
  | @closes warnings kind hkeyword =>
    subst hkeyword
    have hls : Spelled { r with warnings } ls := hls
    exact spelled_close hls herrors

theorem spelled_readLine (line : Nat) {text : List Char} (htext : '\n' ∉ text)
    (hls : r.Spelled ls) (herrors : (r.readLine line text).errors = #[]) :
    (r.readLine line text).Spelled (ls ++ Text.statementsFrom line [text]) := by
  rw [readLine_eq] at herrors ⊢
  rw [Text.statementsFrom, Text.statementsFrom, List.append_nil]
  cases hstatement : Text.statement? text with
  | none => simpa using hls
  | some s =>
    rw [hstatement] at herrors
    have hargs : '\n' ∉ s.2 := fun h => htext (Text.mem_of_statement? hstatement h)
    exact spelled_of_outcome (outcome_readCommand r line s.1 s.2) hls hargs herrors

theorem spelled_readLines (line : Nat) {texts : List (List Char)}
    (htexts : ∀ text ∈ texts, '\n' ∉ text) (hls : r.errors = #[] → r.Spelled ls)
    (herrors : (r.readLines line texts).errors = #[]) :
    (r.readLines line texts).Spelled (ls ++ Text.statementsFrom line texts) := by
  induction texts generalizing r ls line with
  | nil =>
    rw [Text.statementsFrom, List.append_nil]
    exact hls herrors
  | cons text rest ih =>
    obtain ⟨htext, hrest⟩ := List.forall_mem_cons.1 htexts
    rw [Text.statementsFrom_cons, ← List.append_assoc]
    refine ih (line + 1) hrest ?_ herrors
    intro hline
    exact spelled_readLine line htext (hls (accepts_readLine r line text hline).1) hline

end Reading

theorem Script.spells_of_compile {source : String} {script : Script}
    (h : Script.compile source = .ok script) :
    Spells [] (Script.statements source) script.commands script.declared := by
  obtain ⟨herrors, hblocks, rfl⟩ := Reading.of_compile h
  have hstart : Reading.Spelled {} [] := .top .nil
  have hspelled :=
    Reading.spelled_readLines 1 (Text.no_feed_of_mem_lines source.toList) (fun _ => hstart) herrors
  rw [List.nil_append, Reading.Spelled, hblocks] at hspelled
  cases hspelled with
  | top hspells => exact hspells

end PatternScript
