import PatternScript.Proofs.Blocks.Matching
import PatternScript.Proofs.Blocks.Spelling

/-!
# Where commands stand

The outline of a compiled script has a command for each line that asks for one, in the order
of the lines. A command stands in the blocks that are open at its line, told by matching
headers with terminators on the page and not by how the tree was built.
-/
namespace PatternScript

open Brackets (Balanced Encloses Matched Ordered marksOf partOf)

/-- Whether a line with a certain keyword adds a command to the script. -/
def Script.addsCommand (keyword : String) : Bool :=
  !(["DEFINE", "ELSE", "ENDIF", "ENDREPEAT"].contains keyword)

/-- A command with the blocks around it, the innermost first, each told by the line of its
header and the part of it that the command lies in. -/
structure Located where
  path : List (Nat × Place)
  command : Command

namespace Located

def outlined (l : Located) : Outlined :=
  ⟨l.path.length, (l.path.head?.map (·.2)).getD .top, l.command⟩

def under (outer : List (Nat × Place)) (l : Located) : Located :=
  ⟨l.path ++ outer, l.command⟩

end Located

namespace Command

def heading (c : Command) : Nat × String := (c.line, c.keyword)

@[simp] theorem heading_act (line : Nat) (a : Action) :
    (act line a).heading = (line, a.keyword) := rfl

@[simp] theorem heading_loop (line : Nat) (count : Token) (body : List Command) :
    (loop line count body).heading = (line, "REPEAT") := rfl

@[simp] theorem heading_choice (line : Nat) (condition : List Token) (yes no : List Command) :
    (choice line condition yes no).heading = (line, "IF") := rfl

mutual

def located (path : List (Nat × Place)) : Command → List Located
  | .act line a => [⟨path, .act line a⟩]
  | .loop line count body =>
    ⟨path, .loop line count body⟩ :: locatedAll ((line, .body) :: path) body
  | .choice line condition yes no =>
    ⟨path, .choice line condition yes no⟩ ::
      (locatedAll ((line, .yes) :: path) yes ++ locatedAll ((line, .no) :: path) no)

def locatedAll (path : List (Nat × Place)) : List Command → List Located
  | [] => []
  | c :: rest => c.located path ++ locatedAll path rest

end

mutual

theorem outline_eq (path : List (Nat × Place)) (c : Command) :
    c.outline path.length ((path.head?.map (·.2)).getD .top) =
      (c.located path).map Located.outlined := by
  cases c with
  | act line a => rfl
  | loop line count body =>
    rw [outline, located, List.map_cons, ← outlineAll_eq]
    rfl
  | choice line condition yes no =>
    rw [outline, located, List.map_cons, List.map_append, ← outlineAll_eq, ← outlineAll_eq]
    rfl

theorem outlineAll_eq (path : List (Nat × Place)) (cs : List Command) :
    outlineAll path.length ((path.head?.map (·.2)).getD .top) cs =
      (locatedAll path cs).map Located.outlined := by
  cases cs with
  | nil => rfl
  | cons c rest => rw [outlineAll, locatedAll, List.map_append, outline_eq, outlineAll_eq]

end

mutual

theorem located_append (c : Command) (path outer : List (Nat × Place)) :
    c.located (path ++ outer) = (c.located path).map (Located.under outer) := by
  cases c with
  | act line a => rfl
  | loop line count body =>
    rw [located, located, List.map_cons, ← locatedAll_append]
    rfl
  | choice line condition yes no =>
    rw [located, located, List.map_cons, List.map_append, ← locatedAll_append,
      ← locatedAll_append]
    rfl

theorem locatedAll_append (cs : List Command) (path outer : List (Nat × Place)) :
    locatedAll (path ++ outer) cs = (locatedAll path cs).map (Located.under outer) := by
  cases cs with
  | nil => rfl
  | cons c rest => rw [locatedAll, locatedAll, List.map_append, located_append, locatedAll_append]

end

end Command

def Script.located (s : Script) : List Located := Command.locatedAll [] s.commands

theorem Script.outline_eq_located (s : Script) : s.outline = s.located.map Located.outlined :=
  Command.outlineAll_eq [] s.commands

section Lines

variable {d d' : List String} {ls inner : List (Nat × String)} {cs : List Command}

theorem Brackets.Ordered.marksOf (h : Ordered ls) : Ordered (Brackets.marksOf ls) := by
  refine List.Pairwise.filterMap _ ?_ h
  intro s s' hlt m hm m' hm'
  obtain ⟨_, -, rfl⟩ := Option.map_eq_some_iff.1 hm
  obtain ⟨_, -, rfl⟩ := Option.map_eq_some_iff.1 hm'
  exact hlt

theorem exists_mem_of_marksOf {m : Nat × BlockMark} (h : m ∈ marksOf ls) :
    ∃ keyword, (m.1, keyword) ∈ ls := by
  obtain ⟨s, hs, hm⟩ := List.mem_filterMap.1 h
  obtain ⟨_, -, rfl⟩ := Option.map_eq_some_iff.1 hm
  exact ⟨s.2, hs⟩

theorem Brackets.Ordered.of_block {first stop : Nat × String}
    (h : Ordered (first :: (inner ++ stop :: ls))) :
    Ordered inner ∧ Ordered (stop :: ls) ∧ (∀ s ∈ inner, first.1 < s.1 ∧ s.1 < stop.1) ∧
      ∀ s ∈ ls, stop.1 < s.1 := by
  obtain ⟨hfirst, h⟩ := List.pairwise_cons.1 h
  obtain ⟨hinner, hrest, hcross⟩ := List.pairwise_append.1 h
  refine ⟨hinner, hrest, ?_, (List.pairwise_cons.1 hrest).1⟩
  intro s hs
  exact ⟨hfirst s (List.mem_append_left _ hs), hcross s hs stop List.mem_cons_self⟩

theorem balanced_of_spells (h : Spells d ls cs d') : Balanced (marksOf ls) := by
  induction h with
  | nil => exact .nil
  | define _ ih => exact ih
  | act _ _ ih =>
    rw [marksOf, List.filterMap_cons, Action.mark_keyword]
    exact ih
  | loop _ _ _ ihbody ih => exact Brackets.marksOf_block .loop _ _ _ _ ▸ ihbody.block ih
  | choice _ _ _ ihyes ih => exact Brackets.marksOf_block .choice _ _ _ _ ▸ ihyes.block ih
  | turned _ _ _ _ ihyes ihno ih =>
    rw [Brackets.marksOf_turned]
    exact ihyes.turned ihno ih

theorem Script.addsCommand_keyword (a : Action) : addsCommand a.keyword = true := by
  cases a with
  | draw shape => cases shape <;> rfl
  | _ => rfl

theorem outlineAll_of_spells (h : Spells d ls cs d') (depth : Nat) (place : Place) :
    (Command.outlineAll depth place cs).map (fun o => o.command.heading) =
      ls.filter fun s => Script.addsCommand s.2 := by
  have hloop : Script.addsCommand "REPEAT" = true := rfl
  have hchoice : Script.addsCommand "IF" = true := rfl
  have helse : Script.addsCommand "ELSE" = false := rfl
  have hendloop : Script.addsCommand "ENDREPEAT" = false := rfl
  have hendchoice : Script.addsCommand "ENDIF" = false := rfl
  induction h generalizing depth place with
  | nil => rfl
  | define _ ih => exact ih depth place
  | act _ _ ih =>
    simp [Command.outlineAll, Command.outline, ih, Script.addsCommand_keyword]
  | loop _ _ _ ihbody ih =>
    simp [Command.outlineAll, Command.outline, ihbody, ih, hloop, hendloop]
  | choice _ _ _ ihyes ih =>
    simp [Command.outlineAll, Command.outline, ihyes, ih, hchoice, hendchoice]
  | turned _ _ _ _ ihyes ihno ih =>
    simp [Command.outlineAll, Command.outline, ihyes, ihno, ih, hchoice, helse, hendchoice]

theorem exists_mem_of_located (h : Spells d ls cs d') {l : Located}
    (hl : l ∈ Command.locatedAll [] cs) : ∃ keyword, (l.command.line, keyword) ∈ ls := by
  have hmem : l.outlined ∈ Command.outlineAll 0 .top cs := by
    have heq := Command.outlineAll_eq [] cs
    exact heq ▸ List.mem_map_of_mem hl
  have hline : l.command.heading ∈ (Command.outlineAll 0 .top cs).map fun o => o.command.heading :=
    List.mem_map.2 ⟨_, hmem, rfl⟩
  rw [outlineAll_of_spells h] at hline
  exact ⟨_, (List.mem_filter.1 hline).1⟩

end Lines

/-- Whether the path of a command has the blocks that its line lies in, by the marks of the
page, and each of them once. -/
structure Located.PlacedIn (ms : Brackets.Marks) (l : Located) : Prop where
  mem_iff : ∀ start place, (start, place) ∈ l.path ↔ Encloses ms l.command.line start place
  inward : l.path.Pairwise fun b b' => b'.1 < b.1

namespace Located

variable {ms past rest : Brackets.Marks} {l : Located}

theorem placed_top {c : Command} (h : ∀ m ∈ ms, c.line ≤ m.1) : PlacedIn ms ⟨[], c⟩ := by
  refine ⟨?_, .nil⟩
  intro start place
  constructor
  · intro hmem
    cases hmem
  · intro hencloses
    obtain ⟨kind, turn, stop, hmatched, hstart, -⟩ := hencloses
    have hle := h _ hmatched.opens_mem
    exact absurd hstart (Nat.not_lt.2 hle)

theorem placed_after (h : l.PlacedIn rest) (hms : Ordered (past ++ rest)) (hpast : Balanced past)
    (hrest : Balanced rest) (hline : ∀ m ∈ past, m.1 < l.command.line) :
    l.PlacedIn (past ++ rest) := by
  refine ⟨?_, h.inward⟩
  intro start place
  rw [Brackets.encloses_after hms hpast hrest hline]
  exact h.mem_iff start place

theorem placed_inside {header after mid : Brackets.Marks} {kind : BlockKind} {turn : Option Nat}
    {first stop : Nat} (h : l.PlacedIn mid) (hms : Ordered ms)
    (heq : ms = ((first, .opens kind) :: past ++ header) ++ mid ++ after)
    (hmatched : Matched ms kind first turn stop) (hfirst : first < l.command.line)
    (hstop : l.command.line < stop) (hpast : Balanced past)
    (hpastLine : ∀ m ∈ past, m.1 < l.command.line)
    (hheader : ∀ start kind, (start, .opens kind) ∉ header) (hmid : Balanced mid)
    (hafter : ∀ m ∈ after, l.command.line < m.1) :
    (l.under [(first, partOf kind turn l.command.line)]).PlacedIn ms := by
  constructor
  · intro start place
    have hiff : Encloses ms l.command.line start place ↔
        Encloses mid l.command.line start place ∨
          (start, place) = (first, partOf kind turn l.command.line) :=
      Brackets.encloses_inside hms heq hmatched hfirst hstop hpast hpastLine hheader hmid hafter
    rw [under, List.mem_append, List.mem_singleton, h.mem_iff, hiff]
  · refine List.pairwise_append.2 ⟨h.inward, List.pairwise_singleton _ _, ?_⟩
    intro b hb b' hb'
    cases List.mem_singleton.1 hb'
    obtain ⟨kind', turn', stop', hinner, -⟩ := (h.mem_iff b.1 b.2).1 hb
    rw [heq, List.cons_append, List.cons_append, List.cons_append] at hms
    refine (List.pairwise_cons.1 hms).1 (b.1, .opens kind') ?_
    simp [hinner.opens_mem]

end Located

section Placement

variable {d d' : List String} {ls past mid whole : List (Nat × String)} {cs : List Command}

theorem placed_head {c : Command} {keyword : String} (h : Ordered ((c.line, keyword) :: ls)) :
    Located.PlacedIn (marksOf ((c.line, keyword) :: ls)) ⟨[], c⟩ := by
  refine Located.placed_top ?_
  intro m hm
  obtain ⟨keyword', hmem⟩ := exists_mem_of_marksOf hm
  rcases List.mem_cons.1 hmem with heq | hmem
  · exact Nat.le_of_eq (congrArg Prod.fst heq).symm
  · exact Nat.le_of_lt ((List.pairwise_cons.1 h).1 _ hmem)

theorem placed_rest (hls : Ordered (past ++ ls)) (hpast : Balanced (marksOf past))
    (hspells : Spells d ls cs d')
    (h : ∀ l ∈ Command.locatedAll [] cs, l.PlacedIn (marksOf ls)) :
    ∀ l ∈ Command.locatedAll [] cs, l.PlacedIn (marksOf (past ++ ls)) := by
  intro l hl
  have hms := hls.marksOf
  rw [Brackets.marksOf_append] at hms ⊢
  refine Located.placed_after (h l hl) hms hpast (balanced_of_spells hspells) ?_
  intro m hm
  obtain ⟨keyword, hmem⟩ := exists_mem_of_marksOf hm
  obtain ⟨keyword', hline⟩ := exists_mem_of_located hspells hl
  exact (List.pairwise_append.1 hls).2.2 _ hmem _ hline

theorem placed_part (kind : BlockKind) (past header after : List (Nat × String))
    {turn : Option Nat} {first stop : Nat} {place : Place}
    (hwhole : whole = (first, kind.keyword) :: (past ++ header) ++ mid ++ after)
    (hls : Ordered whole) (hmatched : Matched (marksOf whole) kind first turn stop)
    (hpast : Balanced (marksOf past)) (hheader : ∀ start kind, (start, .opens kind) ∉ marksOf header)
    (hspells : Spells d mid cs d') (h : ∀ l ∈ Command.locatedAll [] cs, l.PlacedIn (marksOf mid))
    (hstop : ∀ s ∈ mid, s.1 < stop) (hplace : ∀ s ∈ mid, partOf kind turn s.1 = place) :
    ∀ l ∈ Command.locatedAll [(first, place)] cs, l.PlacedIn (marksOf whole) := by
  intro l hl
  have hunder := Command.locatedAll_append cs [] [(first, place)]
  rw [List.nil_append] at hunder
  rw [hunder] at hl
  obtain ⟨l', hl', rfl⟩ := List.mem_map.1 hl
  obtain ⟨keyword, hline⟩ := exists_mem_of_located hspells hl'
  have horder := hls
  rw [hwhole, List.append_assoc] at horder
  obtain ⟨-, hrest, hbefore⟩ := List.pairwise_append.1 horder
  obtain ⟨-, -, hafter⟩ := List.pairwise_append.1 hrest
  have hmidline := List.mem_append_left after hline
  rw [← hplace _ hline]
  have hmarks : marksOf whole = ((first, .opens kind) :: marksOf past ++ marksOf header) ++
      marksOf mid ++ marksOf after := by
    rw [hwhole]
    simp [marksOf, BlockMark.ofKeyword?_keyword]
  refine Located.placed_inside (h l' hl') hls.marksOf hmarks hmatched
    (hbefore _ List.mem_cons_self _ hmidline) (hstop _ hline) hpast ?_ hheader
    (balanced_of_spells hspells) ?_
  · intro m hm
    obtain ⟨keyword', hmem⟩ := exists_mem_of_marksOf hm
    exact hbefore _ (List.mem_cons_of_mem _ (List.mem_append_left _ hmem)) _ hmidline
  · intro m hm
    obtain ⟨keyword', hmem⟩ := exists_mem_of_marksOf hm
    exact hafter _ hline _ hmem

theorem placed_plain (kind : BlockKind) {line stop : Nat} {place : Place}
    (hls : Ordered ((line, kind.keyword) :: (mid ++ (stop, kind.terminator) :: ls)))
    (hspells : Spells d mid cs d') (h : ∀ l ∈ Command.locatedAll [] cs, l.PlacedIn (marksOf mid))
    (hplace : ∀ line, partOf kind none line = place) :
    ∀ l ∈ Command.locatedAll [(line, place)] cs,
      l.PlacedIn (marksOf ((line, kind.keyword) :: (mid ++ (stop, kind.terminator) :: ls))) := by
  obtain ⟨-, -, hbetween, -⟩ := hls.of_block
  have hmatched := Matched.plain [] (marksOf ls) (balanced_of_spells hspells)
    (Brackets.marksOf_block kind line stop mid ls)
  refine placed_part kind [] [] ((stop, kind.terminator) :: ls) rfl hls hmatched .nil nofun
    hspells h ?_ ?_
  · intro s hs
    exact (hbetween s hs).2
  · intro s _
    exact hplace s.1

theorem placed_of_spells (h : Spells d ls cs d') (hls : Ordered ls) :
    ∀ l ∈ Command.locatedAll [] cs, l.PlacedIn (marksOf ls) := by
  induction h with
  | nil =>
    intro l hl
    cases hl
  | define _ ih => exact ih (List.pairwise_cons.1 hls).2
  | @act _ a _ _ _ _ _ _ ih =>
    intro l hl
    rcases List.mem_cons.1 hl with rfl | hl
    · exact placed_head (c := .act _ a) hls
    · rw [marksOf, List.filterMap_cons, Action.mark_keyword]
      exact ih (List.pairwise_cons.1 hls).2 l hl
  | @loop line stop count d _ _ inner ls body cs hread hbody hrest ihbody ih =>
    intro l hl
    obtain ⟨hinner, hafter, -⟩ := hls.of_block
    rw [Command.locatedAll, Command.located, List.cons_append, List.mem_cons, List.mem_append] at hl
    rcases hl with rfl | hl | hl
    · exact placed_head (c := .loop line count body) hls
    · exact placed_plain .loop hls hbody (ihbody hinner) (fun _ => rfl) l hl
    · have hsplit : (line, "REPEAT") :: (inner ++ (stop, "ENDREPEAT") :: ls) =
          (line, "REPEAT") :: (inner ++ [(stop, "ENDREPEAT")]) ++ ls := by simp
      rw [hsplit] at hls ⊢
      have hblock : Balanced (marksOf ((line, "REPEAT") :: (inner ++ [(stop, "ENDREPEAT")]))) :=
        balanced_of_spells (hbody.loop hread .nil)
      exact placed_rest hls hblock hrest (ih (List.pairwise_cons.1 hafter).2) l hl
  | @choice line stop condition d _ _ inner ls yes cs hread hyes hrest ihyes ih =>
    intro l hl
    obtain ⟨hinner, hafter, -⟩ := hls.of_block
    rw [Command.locatedAll, Command.located, Command.locatedAll, List.append_nil, List.cons_append,
      List.mem_cons, List.mem_append] at hl
    rcases hl with rfl | hl | hl
    · exact placed_head (c := .choice line condition yes []) hls
    · exact placed_plain .choice hls hyes (ihyes hinner) (fun _ => rfl) l hl
    · have hsplit : (line, "IF") :: (inner ++ (stop, "ENDIF") :: ls) =
          (line, "IF") :: (inner ++ [(stop, "ENDIF")]) ++ ls := by simp
      rw [hsplit] at hls ⊢
      have hblock : Balanced (marksOf ((line, "IF") :: (inner ++ [(stop, "ENDIF")]))) :=
        balanced_of_spells (hyes.choice hread .nil)
      exact placed_rest hls hblock hrest (ih (List.pairwise_cons.1 hafter).2) l hl
  | @turned line turn stop condition _ _ _ _ inner other ls yes no cs hread hyes hno hrest ihyes
      ihno ih =>
    intro l hl
    obtain ⟨hinner, hturn, hbetween, -⟩ := hls.of_block
    obtain ⟨hother, hafter, hbetween', -⟩ := hturn.of_block
    have hstop : turn < stop := (List.pairwise_cons.1 hturn).1 (stop, "ENDIF") (by simp)
    have hmatched := Matched.turned [] (marksOf ls) (balanced_of_spells hyes)
      (balanced_of_spells hno) (Brackets.marksOf_turned line turn stop inner other ls)
    rw [Command.locatedAll, Command.located, List.cons_append, List.mem_cons, List.mem_append,
      List.mem_append] at hl
    rcases hl with rfl | (hl | hl) | hl
    · exact placed_head (c := .choice line condition yes no) hls
    · refine placed_part .choice [] [] ((turn, "ELSE") :: (other ++ (stop, "ENDIF") :: ls)) rfl hls
        hmatched .nil (fun _ _ => List.not_mem_nil) hyes (ihyes hinner) ?_ ?_ l hl
      · intro s hs
        exact Nat.lt_trans (hbetween s hs).2 hstop
      · intro s hs
        exact if_neg (Nat.lt_asymm (hbetween s hs).2)
    · refine placed_part .choice inner [(turn, "ELSE")] ((stop, "ENDIF") :: ls)
        (by simp [BlockKind.keyword]) hls hmatched (balanced_of_spells hyes) ?_ hno (ihno hother) ?_ ?_ l hl
      · simp [marksOf, BlockMark.ofKeyword?]
      · intro s hs
        exact (hbetween' s hs).2
      · intro s hs
        exact if_pos (hbetween' s hs).1
    · have hsplit : (line, "IF") :: (inner ++ (turn, "ELSE") :: (other ++ (stop, "ENDIF") :: ls)) =
          (line, "IF") :: (inner ++ (turn, "ELSE") :: (other ++ [(stop, "ENDIF")])) ++ ls := by
        simp
      rw [hsplit] at hls ⊢
      have hblock : Balanced (marksOf ((line, "IF") ::
          (inner ++ (turn, "ELSE") :: (other ++ [(stop, "ENDIF")])))) :=
        balanced_of_spells (hyes.turned hread hno .nil)
      exact placed_rest hls hblock hrest (ih (List.pairwise_cons.1 hafter).2) l hl

end Placement

theorem Text.ordered_statementsFrom (line : Nat) (texts : List (List Char)) :
    Ordered (statementsFrom line texts) ∧ ∀ s ∈ statementsFrom line texts, line ≤ s.1 := by
  induction texts generalizing line with
  | nil => exact ⟨.nil, nofun⟩
  | cons text rest ih =>
    obtain ⟨hrest, hlater⟩ := ih (line + 1)
    rw [statementsFrom]
    cases statement? text with
    | none => exact ⟨hrest, fun s hs => Nat.le_of_succ_le (hlater s hs)⟩
    | some found =>
      refine ⟨List.pairwise_cons.2 ⟨hlater, hrest⟩, ?_⟩
      intro s hs
      rcases List.mem_cons.1 hs with rfl | hs
      · exact Nat.le_refl line
      · exact Nat.le_of_succ_le (hlater s hs)

namespace Script

/-- The outline of a script has one command for each line of its source that asks for one, in
the order of the lines, and each stands in the blocks around its line and in no others. -/
theorem outline_of_compile {source : String} {script : Script}
    (h : compile source = .ok script) :
    script.outline = script.located.map Located.outlined ∧
      script.outline.map (fun o => o.command.heading) =
        (statements source).filter (fun s => addsCommand s.2) ∧
      (script.outline.map fun o => o.command.line).Pairwise (· < ·) ∧
      ∀ l ∈ script.located, l.PlacedIn (marksOf (statements source)) := by
  have hspells := spells_of_compile h
  have hordered : Ordered (statements source) := (Text.ordered_statementsFrom 1 _).1
  have hheadings := outlineAll_of_spells hspells 0 .top
  refine ⟨script.outline_eq_located, hheadings, ?_, placed_of_spells hspells hordered⟩
  have hlines : (script.outline.map fun o => o.command.line) =
      ((statements source).filter fun s => addsCommand s.2).map (·.1) := by
    rw [← hheadings, List.map_map]
    rfl
  rw [hlines]
  exact List.Pairwise.map _ (fun _ _ hlt => hlt) (hordered.sublist List.filter_sublist)

theorem outline_of_compile_of_turned :
    let source := "REPEAT COUNT=2\n# note\nIF $INDEX == 0 THEN\nVAR $a\nELSE\n" ++
      "COLOR NAME=BLACK\nENDIF\nENDREPEAT\nPIXEL X=0 Y=0\n"
    ∃ script, compile source = .ok script ∧
      script.located.map (fun l => (l.path, l.command.heading)) =
        [([], (1, "REPEAT")), ([(1, .body)], (3, "IF")), ([(3, .yes), (1, .body)], (4, "VAR")),
          ([(3, .no), (1, .body)], (6, "COLOR")), ([], (9, "PIXEL"))] ∧
      ∀ l ∈ script.located, l.PlacedIn (marksOf (statements source)) := by
  intro source
  have hread : (compile source).toOption.map (fun script =>
      script.located.map fun l => (l.path, l.command.heading)) =
      some [([], (1, "REPEAT")), ([(1, .body)], (3, "IF")),
        ([(3, .yes), (1, .body)], (4, "VAR")), ([(3, .no), (1, .body)], (6, "COLOR")),
        ([], (9, "PIXEL"))] := by
    decide +kernel
  cases hcompile : compile source with
  | error errors =>
    rw [hcompile] at hread
    cases hread
  | ok script =>
    rw [hcompile] at hread
    exact ⟨script, rfl, Option.some.inj hread, (outline_of_compile hcompile).2.2.2⟩

end Script

end PatternScript
