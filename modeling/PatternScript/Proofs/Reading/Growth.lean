import PatternScript.Proofs.Reading.Readers
import PatternScript.Script.Reading

/-!
# How a tree grows while it is read

Had all open blocks been closed at some point of a reading, the commands read so far would
form a tree. Opening a block adds its header to that tree, closing one and turning to `ELSE`
leave the tree as it is, and every other accepted line adds its command at the end. So the
headers of a script are those of its lines in turn, and each was checked against the
variables that the headers before it declare.
-/
namespace PatternScript

open Command (names headers)

namespace PendingBlock

def closeWith (extra : List Command) : PendingBlock → Command
  | loop line count body => .loop line count (body.toList ++ extra)
  | choice line condition yes none => .choice line condition (yes.toList ++ extra) []
  | choice line condition yes (some no) => .choice line condition yes.toList (no.toList ++ extra)

theorem close_eq (b : PendingBlock) : b.close = b.closeWith [] := by
  cases b with
  | loop line count body => simp [close, closeWith]
  | choice line condition yes no => cases no <;> simp [close, closeWith]

theorem closeWith_push (b : PendingBlock) (c : Command) (extra : List Command) :
    (b.push c).closeWith extra = b.closeWith (c :: extra) := by
  cases b with
  | loop line count body => simp [push, closeWith]
  | choice line condition yes no => cases no <;> simp [push, closeWith]

def closeAll (commands : List Command) : List PendingBlock → List Command → List Command
  | [], extra => commands ++ extra
  | b :: outer, extra => closeAll commands outer [b.closeWith extra]

theorem headers_closeWith {extra extra' new : List Command} (b : PendingBlock)
    (h : headers extra' = headers extra ++ new) :
    headers [b.closeWith extra'] = headers [b.closeWith extra] ++ new := by
  cases b with
  | loop line count body =>
    simp only [closeWith, Command.headers_singleton, Command.inner, Command.headers_append, h,
      Command.header, List.cons_append, List.append_assoc]
  | choice line condition yes no =>
    cases no with
    | none =>
      simp only [closeWith, Command.headers_singleton, Command.inner, Command.headers_append, h,
        Command.header, List.append_nil, List.cons_append, List.append_assoc]
    | some no =>
      simp only [closeWith, Command.headers_singleton, Command.inner, Command.headers_append, h,
        Command.header, List.cons_append, List.append_assoc]

theorem headers_closeAll (commands : List Command) (blocks : List PendingBlock)
    {extra extra' new : List Command} (h : headers extra' = headers extra ++ new) :
    headers (closeAll commands blocks extra') =
      headers (closeAll commands blocks extra) ++ new := by
  induction blocks generalizing extra extra' with
  | nil =>
    rw [closeAll, closeAll, Command.headers_append, Command.headers_append, h, List.append_assoc]
  | cons b outer ih => exact ih (headers_closeWith b h)

end PendingBlock

namespace Reading

variable {r r' : Reading} {line : Nat} {args : List Char}

def treeWith (r : Reading) (extra : List Command) : List Command :=
  PendingBlock.closeAll r.commands.toList r.blocks extra

def tree (r : Reading) : List Command := r.treeWith []

theorem treeWith_push (r : Reading) (c : Command) (extra : List Command) :
    (r.push c).treeWith extra = r.treeWith (c :: extra) := by
  unfold push treeWith
  cases r.blocks with
  | nil => simp [PendingBlock.closeAll]
  | cons b outer =>
    rw [PendingBlock.closeAll, PendingBlock.closeAll, PendingBlock.closeWith_push]

theorem headers_treeWith (r : Reading) (c : Command) :
    headers (r.treeWith [c]) = headers r.tree ++ headers [c] :=
  PendingBlock.headers_closeAll _ _ (Command.headers_append [] [c])

/-- What an accepted line does to a reading: nothing, or it adds one command, which may stand
where it does and declares no variable anew. -/
inductive Grows (r : Reading) : Reading → Prop where
  | same {r' : Reading} : r'.tree = r.tree → r'.declared = r.declared → Grows r r'
  | add {r' : Reading} (c : Command) :
      r'.tree = r.treeWith [c] → c.inner = [] → c.Admissible r.declared →
      (∀ name ∈ c.declares, name ∉ r.declared) → r'.declared = r.declared ++ c.declares →
      Grows r r'

structure Sound (r : Reading) : Prop where
  wellScoped : Command.WellScoped [] (headers r.tree)
  declared_eq : r.declared = names (headers r.tree)
  nodup : r.declared.Nodup

theorem sound_empty : Sound {} := ⟨trivial, rfl, .nil⟩

theorem sound_of_grows (h : r.Sound) (hgrows : Grows r r') : r'.Sound := by
  cases hgrows with
  | same htree hdeclared =>
    refine ⟨?_, ?_, ?_⟩
    · rw [htree]
      exact h.wellScoped
    · rw [htree, hdeclared]
      exact h.declared_eq
    · rw [hdeclared]
      exact h.nodup
  | add c htree hinner hadmissible hfresh hdeclared =>
    have hheaders : headers r'.tree = headers r.tree ++ [c.header] := by
      rw [htree, headers_treeWith, Command.headers_singleton, hinner]
      rfl
    refine ⟨?_, ?_, ?_⟩
    · rw [hheaders, Command.wellScoped_append, List.nil_append, ← h.declared_eq]
      exact ⟨h.wellScoped, Command.admissible_header.2 hadmissible, trivial⟩
    · rw [hheaders, Command.names_append, ← h.declared_eq, hdeclared, names, List.flatMap_singleton,
        Command.declares_header]
    · rw [hdeclared, List.nodup_append]
      refine ⟨h.nodup, ?_, ?_⟩
      · unfold Command.declares
        split
        · exact List.pairwise_singleton _ _
        · exact .nil
      · intro name hname name' hname' heq
        exact hfresh name' hname' (heq ▸ hname)

def Accepts (r r' : Reading) : Prop := r'.errors = #[] → r.errors = #[] ∧ Grows r r'

theorem accepts_same {r' : Reading} (herrors : r'.errors = r.errors) (htree : r'.tree = r.tree)
    (hdeclared : r'.declared = r.declared) : Accepts r r' := by
  intro h
  exact ⟨herrors ▸ h, .same htree hdeclared⟩

theorem accepts_refuse (r : Reading) (line : Nat) (cause : ParseCause) :
    Accepts r (r.refuse line cause) := by
  intro h
  simp [refuse] at h

theorem accepts_orRefuse {α : Type} {read : Except ParseCause α} {go : α → Reading}
    (hgo : ∀ a, read = .ok a → Accepts r (go a)) : Accepts r (r.orRefuse line read go) := by
  cases read with
  | error cause => exact accepts_refuse r line cause
  | ok a => exact hgo a rfl

theorem errors_push (r : Reading) (c : Command) : (r.push c).errors = r.errors := by
  rw [push]
  split <;> rfl

theorem declared_push (r : Reading) (c : Command) : (r.push c).declared = r.declared := by
  rw [push]
  split <;> rfl

theorem accepts_push {c : Command} (hinner : c.inner = []) (hadmissible : c.Admissible r.declared)
    (hdeclares : c.declares = []) : Accepts r (r.push c) := by
  intro h
  rw [errors_push] at h
  refine ⟨h, .add c (treeWith_push r c []) hinner hadmissible ?_ ?_⟩
  · simp [hdeclares]
  · rw [declared_push, hdeclares, List.append_nil]

theorem accepts_openLoop (r : Reading) (line : Nat) (args : List Char) :
    Accepts r (r.openLoop line args) := by
  rw [openLoop]
  cases hcount : Declaration.readCount r.declared args with
  | error cause =>
    intro h
    simp [refuse] at h
  | ok count =>
    intro h
    obtain ⟨hoperand, hknown⟩ := Declaration.of_readCount hcount
    refine ⟨h, .add (.loop line count []) rfl rfl ⟨hoperand, hknown, ?_⟩ ?_ ?_⟩
    · nofun
    · intro name hname
      cases hname
    · exact (List.append_nil _).symm

theorem accepts_openChoice (r : Reading) (line : Nat) (args : List Char) :
    Accepts r (r.openChoice line args) := by
  rw [openChoice]
  cases hcondition : Declaration.readCondition r.declared args with
  | error cause =>
    intro h
    simp [refuse] at h
  | ok condition =>
    intro h
    obtain ⟨hshape, hknown⟩ := Declaration.of_readCondition hcondition
    refine ⟨h, .add (.choice line condition [] []) rfl rfl ⟨hshape, hknown, ?_⟩ ?_ ?_⟩
    · nofun
    · intro name hname
      cases hname
    · exact (List.append_nil _).symm

section Terminators

variable (r : Reading) (line : Nat) (kind : BlockKind)

theorem declared_turnToElse : (r.turnToElse line).declared = r.declared := by
  rw [turnToElse]
  split <;> rfl

theorem declared_close : (r.close line kind).declared = r.declared := by
  rw [close]
  split
  · split
    · exact declared_push _ _
    · rfl
  · rfl

theorem tree_turnToElse : (r.turnToElse line).tree = r.tree := by
  rw [turnToElse]
  split
  next hblocks =>
    simp [tree, treeWith, hblocks, PendingBlock.closeAll, PendingBlock.closeWith]
  all_goals rfl

theorem tree_close : (r.close line kind).tree = r.tree := by
  rw [close]
  split
  next b outer hblocks =>
    split
    · rw [tree, treeWith_push, tree, treeWith, treeWith, hblocks, PendingBlock.closeAll,
        PendingBlock.close_eq]
    · rfl
  next => rfl

theorem accepts_turnToElse : Accepts r (r.turnToElse line) := by
  intro h
  refine ⟨?_, .same (tree_turnToElse r line) (declared_turnToElse r line)⟩
  rw [turnToElse] at h
  split at h
  next => exact h
  all_goals simp [refuse] at h

theorem accepts_close : Accepts r (r.close line kind) := by
  intro h
  refine ⟨?_, .same (tree_close r line kind) (declared_close r line kind)⟩
  rw [close] at h
  split at h
  next b outer hblocks =>
    split at h
    · rwa [errors_push] at h
    · simp [refuse] at h
  next => simp [refuse] at h

end Terminators

theorem accepts_declare (r : Reading) (line : Nat) (args : List Char) :
    Accepts r (r.declare line args) := by
  refine accepts_orRefuse ?_
  intro h
  obtain ⟨name, init⟩ := h
  intro hvar
  obtain ⟨hfresh, hinit⟩ := Declaration.of_readVar hvar
  cases init with
  | error cause =>
    intro h
    simp [orRefuse, refuse] at h
  | ok tokens =>
    intro h
    obtain ⟨hshape, hknown⟩ := hinit tokens rfl
    simp only [orRefuse, errors_push] at h
    refine ⟨h, .add (.act line (.declare name tokens)) (treeWith_push _ _ []) rfl
      ⟨hshape, hknown, ?_⟩ ?_ (declared_push _ _)⟩
    · nofun
    · intro name' hname'
      cases List.mem_singleton.1 hname'
      exact hfresh

theorem accepts_define (r : Reading) (line : Nat) (args : List Char) :
    Accepts r (r.define line args) := by
  rw [define]
  cases Definition.read r.patterns args with
  | mk remarks table =>
    cases table with
    | error cause =>
      intro h
      simp [orRefuse, refuse] at h
    | ok patterns => exact accepts_same rfl rfl rfl

theorem accepts_pushWith (r : Reading) (line : Nat) (args : List Char)
    {make : Arguments → Action} (hmake : ∀ args, (make args).args? = some args) :
    Accepts r (r.pushWith line args make) := by
  refine accepts_orRefuse ?_
  intro a ha
  obtain ⟨hvalues, hknown⟩ := Arguments.of_parseDeclared ha
  have hargs := hmake a
  cases haction : make a with
  | declare name init => simp [haction, Action.args?] at hargs
  | assign name value => simp [haction, Action.args?] at hargs
  | resetTransforms => simp [haction, Action.args?] at hargs
  | color | fill | translate | rotate | scale | draw =>
    rw [haction] at hargs
    cases hargs
    exact accepts_push rfl ⟨hvalues, hknown, nofun⟩ rfl

theorem accepts_of_warnings {warnings : Array ParseWarning}
    (h : Accepts { r with warnings } r') : Accepts r r' := by
  intro herrors
  obtain ⟨hr, hgrows⟩ := h herrors
  refine ⟨hr, ?_⟩
  cases hgrows with
  | same htree hdeclared => exact .same htree hdeclared
  | add c htree hinner hadmissible hfresh hdeclared =>
    exact .add c htree hinner hadmissible hfresh hdeclared

theorem accepts_ignoring (go : Reading → Reading) (line : Nat) (keyword : String)
    (args : List Char) (h : ∀ r, Accepts r (go r)) (r : Reading) :
    Accepts r (go (r.ignoring line keyword args)) := by
  rw [ignoring]
  split
  · exact h r
  · exact accepts_of_warnings (h _)

theorem accepts_readCommand (r : Reading) (line : Nat) (keyword : String) (args : List Char) :
    Accepts r (r.readCommand line keyword args) := by
  unfold readCommand
  split
  · exact accepts_define r line args
  · exact accepts_openLoop r line args
  · exact accepts_openChoice r line args
  · exact accepts_ignoring _ line _ args (fun r => accepts_turnToElse r line) r
  · exact accepts_ignoring _ line _ args (fun r => accepts_close r line .choice) r
  · exact accepts_ignoring _ line _ args (fun r => accepts_close r line .loop) r
  · exact accepts_declare r line args
  · refine accepts_orRefuse ?_
    intro a ha
    obtain ⟨name, ts, rfl, hdeclared, hshape, hknown⟩ := Declaration.of_readLet ha
    refine accepts_push rfl ⟨hshape, hknown, ?_⟩ rfl
    intro _ _ _ heq
    cases heq
    exact hdeclared
  · exact accepts_pushWith r line args fun _ => rfl
  · exact accepts_pushWith r line args fun _ => rfl
  · exact accepts_pushWith r line args fun _ => rfl
  · exact accepts_pushWith r line args fun _ => rfl
  · exact accepts_pushWith r line args fun _ => rfl
  · refine accepts_ignoring (fun r => r.push (.act line .resetTransforms)) line _ args ?_ r
    intro r
    refine accepts_push rfl ⟨trivial, ?_, ?_⟩ rfl
    · intro v hv
      cases hv
    · nofun
  · split
    · exact accepts_pushWith r line args fun _ => rfl
    · exact accepts_refuse r line _

theorem accepts_readLine (r : Reading) (line : Nat) (text : List Char) :
    Accepts r (r.readLine line text) := by
  rw [readLine]
  split
  · exact accepts_same rfl rfl rfl
  · exact accepts_same rfl rfl rfl
  · exact accepts_readCommand r line _ _

theorem sound_readLines (line : Nat) (texts : List (List Char))
    (hr : r.errors = #[] → r.Sound) (h : (r.readLines line texts).errors = #[]) :
    (r.readLines line texts).Sound := by
  induction texts generalizing r line with
  | nil => exact hr h
  | cons text rest ih =>
    rw [readLines] at h ⊢
    refine ih (line + 1) ?_ h
    intro herrors
    obtain ⟨hbefore, hgrows⟩ := accepts_readLine r line text herrors
    exact sound_of_grows (hr hbefore) hgrows

theorem tree_of_no_blocks (h : r.blocks = []) : r.tree = r.commands.toList := by
  rw [tree, treeWith, h, PendingBlock.closeAll, List.append_nil]

theorem of_compile {source : String} {script : Script}
    (h : Script.compile source = .ok script) :
    (readLines {} 1 (Text.lines source.toList)).errors = #[] ∧
      (readLines {} 1 (Text.lines source.toList)).blocks = [] ∧
      script = (readLines {} 1 (Text.lines source.toList)).script := by
  rw [Script.compile, result] at h
  split at h
  next herrors =>
    cases h
    have hempty := congrArg Array.toList (Array.isEmpty_iff.1 herrors)
    rw [ofSource, finish, Array.toList_appendList, List.append_eq_nil_iff] at hempty
    exact ⟨Array.toList_eq_nil_iff.1 hempty.1, List.map_eq_nil_iff.1 hempty.2, rfl⟩
  next => cases h

end Reading

/-- What compiling a source settles about the script: its headers are well scoped, and its
declared variables are those of its headers, each declared once. -/
structure Script.Scoped (s : Script) : Prop where
  wellScoped : Command.WellScoped [] (headers s.commands)
  declared_eq : s.declared = names (headers s.commands)
  nodup : s.declared.Nodup

theorem Script.scoped_of_compile {source : String} {script : Script}
    (h : Script.compile source = .ok script) : script.Scoped := by
  obtain ⟨herrors, hblocks, rfl⟩ := Reading.of_compile h
  have hsound := Reading.sound_readLines 1 _ (fun _ => Reading.sound_empty) herrors
  obtain ⟨hscoped, hdeclared, hnodup⟩ := hsound
  rw [Reading.tree_of_no_blocks hblocks] at hscoped hdeclared
  exact ⟨hscoped, hdeclared, hnodup⟩

end PatternScript
