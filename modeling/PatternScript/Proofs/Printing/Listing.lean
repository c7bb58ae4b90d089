import PatternScript.Proofs.Blocks.Spelling
import PatternScript.Proofs.Printing.Headers

/-!
# Listings

A script is listed by the summaries of its commands, each on a line of its own and with the
words that turn and close the blocks. The listing of a script that was read is a source of the
same script: only the numbers of the lines differ, and the patterns, which are no commands, are
missing. A reading therefore gains from the listing of some commands just these commands.
-/
namespace PatternScript

open Text (isBlank headline)

mutual

/-- The lines of a command; an `ELSE` stands only before something. -/
def Command.listing : Command → List String
  | .act line a => [(Command.act line a).summary]
  | .loop line count body =>
    (Command.loop line count body).summary :: (listingAll body ++ ["ENDREPEAT"])
  | .choice line condition yes no =>
    (Command.choice line condition yes no).summary ::
      (listingAll yes ++ (if no.isEmpty then [] else "ELSE" :: listingAll no) ++ ["ENDIF"])

def Command.listingAll : List Command → List String
  | [] => []
  | c :: rest => c.listing ++ listingAll rest

end

def Script.listing (s : Script) : String :=
  String.join ((Command.listingAll s.commands).map (· ++ "\n"))

mutual

/-- A command without the numbers of its lines. -/
def Command.unnumbered : Command → Command
  | .act _ a => .act 0 a
  | .loop _ count body => .loop 0 count (unnumberedAll body)
  | .choice _ condition yes no => .choice 0 condition (unnumberedAll yes) (unnumberedAll no)

def Command.unnumberedAll : List Command → List Command
  | [] => []
  | c :: rest => c.unnumbered :: unnumberedAll rest

end

mutual

def Command.keys : Command → List String
  | .act line a => (Command.act line a).ownKeys
  | .loop _ _ body => keysAll body
  | .choice _ _ yes no => keysAll yes ++ keysAll no

def Command.keysAll : List Command → List String
  | [] => []
  | c :: rest => c.keys ++ keysAll rest

end

def Script.keys (s : Script) : List String := Command.keysAll s.commands

namespace PendingBlock

def pushAll (b : PendingBlock) (cs : List Command) : PendingBlock :=
  cs.foldl (fun b c => b.push c) b

theorem kind_push (b : PendingBlock) (c : Command) : (b.push c).kind = b.kind := by
  cases b with
  | loop => rfl
  | choice line condition yes no => cases no <;> rfl

theorem kind_pushAll (b : PendingBlock) (cs : List Command) : (b.pushAll cs).kind = b.kind := by
  induction cs generalizing b with
  | nil => rfl
  | cons c cs ih => exact (ih (b.push c)).trans (kind_push b c)

theorem closeWith_pushAll (b : PendingBlock) (cs extra : List Command) :
    (b.pushAll cs).closeWith extra = b.closeWith (cs ++ extra) := by
  induction cs generalizing b with
  | nil => rfl
  | cons c cs ih => exact (ih (b.push c)).trans (closeWith_push b c _)

theorem pushAll_choice (line : Nat) (condition : List Token) (yes : Array Command)
    (cs : List Command) : (choice line condition yes none).pushAll cs =
      .choice line condition (yes ++ cs.toArray) none := by
  induction cs generalizing yes with
  | nil => simp [pushAll]
  | cons c cs ih =>
    refine (ih (yes.push c)).trans ?_
    simp

end PendingBlock

namespace Reading

variable {r : Reading} {line : Nat} {declared : List String}

section Extension

def enter (r : Reading) (b : PendingBlock) : Reading := { r with blocks := b :: r.blocks }

def extend (r : Reading) (cs : List Command) (declared : List String) : Reading :=
  { cs.foldl push r with declared }

theorem push_declared (r : Reading) (declared : List String) (c : Command) :
    { r with declared }.push c = { r.push c with declared } := by
  unfold push
  cases r.blocks <;> rfl

theorem extend_extend (r : Reading) (cs cs' : List Command) (declared declared' : List String) :
    (r.extend cs declared).extend cs' declared' = r.extend (cs ++ cs') declared' := by
  have hfold (r : Reading) : ({ cs'.foldl push { r with declared } with declared := declared' }) =
      { cs'.foldl push r with declared := declared' } := by
    induction cs' generalizing r with
    | nil => rfl
    | cons c cs' ih => rw [List.foldl_cons, List.foldl_cons, push_declared, ih]
  rw [extend, extend, hfold, ← List.foldl_append, extend]

theorem extend_enter (r : Reading) (b : PendingBlock) (cs : List Command)
    (declared : List String) :
    (r.enter b).extend cs declared = (r.extend [] declared).enter (b.pushAll cs) := by
  have hfold (b : PendingBlock) : cs.foldl push (r.enter b) = r.enter (b.pushAll cs) := by
    induction cs generalizing b with
    | nil => rfl
    | cons c cs ih => exact ih (b.push c)
  rw [extend, hfold]
  rfl

theorem extend_start (cs : List Command) (declared : List String) :
    ({} : Reading).extend cs declared = { commands := cs.toArray, declared } := by
  have hfold (commands : Array Command) :
      cs.foldl push { commands } = { commands := commands ++ cs.toArray } := by
    induction cs generalizing commands with
    | nil => simp
    | cons c cs ih =>
      refine (ih (commands.push c)).trans ?_
      simp
  rw [extend, hfold #[]]
  simp

theorem close_extend (r : Reading) (b : PendingBlock) (cs : List Command)
    (declared : List String) (stop : Nat) :
    ((r.enter b).extend cs declared).close stop b.kind = r.extend [b.closeWith cs] declared := by
  have hclose : (b.pushAll cs).close = b.closeWith cs := by
    rw [PendingBlock.close_eq, PendingBlock.closeWith_pushAll, List.append_nil]
  rw [extend_enter, enter, close]
  simp only [PendingBlock.kind_pushAll, if_true, hclose]
  exact push_declared r declared _

theorem turnToElse_extend (r : Reading) (start turn : Nat) (condition : List Token)
    (yes : List Command) (declared : List String) :
    ((r.enter (.choice start condition #[] none)).extend yes declared).turnToElse turn =
      (r.extend [] declared).enter (.choice start condition yes.toArray (some #[])) := by
  rw [extend_enter, turnToElse, PendingBlock.pushAll_choice]
  simp [enter]

end Extension

section Lines

theorem readLine_summary (line : Nat) {c : Command} (hc : c.Legible r.declared)
    (hkeys : ∀ key ∈ c.ownKeys, ∀ c ∈ key.toList, isBlank c = false) :
    c.ReadFrom r.declared c.written ∧
      r.readLine line c.summary.toList = r.readCommand line c.keyword c.written := by
  obtain ⟨args, hfeed, hread⟩ := hc
  obtain ⟨htrimmed, -, hwritten⟩ := Command.readFrom_written hread hfeed hkeys
  refine ⟨hwritten, ?_⟩
  rw [readLine_eq, Command.toList_summary hread, statement?_keyword c.keyword_mem htrimmed]

theorem readLine_keyword (r : Reading) (line : Nat) {keyword : String} (h : keyword ∈ keywords) :
    r.readLine line keyword.toList = r.readCommand line keyword [] := by
  have hstatement := statement?_keyword h .nil
  rw [headline, if_pos rfl] at hstatement
  rw [readLine_eq, hstatement]

theorem readCommand_draw (r : Reading) (line : Nat) (shape : Shape) (args : List Char) :
    r.readCommand line shape.name args = r.pushWith line args (.draw shape) := by
  cases shape <;> rfl

theorem push_eq_extend (r : Reading) (c : Command) : r.push c = r.extend [c] (r.declared ++ []) := by
  rw [List.append_nil]
  exact push_declared r r.declared c

theorem pushWith_eq_extend {args : List Char} {a : Arguments} (line : Nat)
    (make : Arguments → Action) (h : Arguments.parseDeclared r.declared args = .ok a) :
    r.pushWith line args make = r.extend [.act line (make a)] (r.declared ++ []) := by
  rw [pushWith, h]
  exact push_eq_extend r _

theorem readCommand_act (line : Nat) {a : Action} (h : a.ReadFrom r.declared a.written) :
    r.readCommand line a.keyword a.written =
      r.extend [.act line a] (r.declared ++ (Command.act line a).declares) := by
  cases a with
  | declare name init =>
    generalize (Action.declare name init).written = args at h ⊢
    change r.declare line args = _
    rw [declare, show Declaration.readVar r.declared args = .ok (name, .ok init) from h]
    exact push_declared r _ _
  | assign name value =>
    generalize (Action.assign name value).written = args at h ⊢
    change r.orRefuse line (Declaration.readLet r.declared args) _ = _
    rw [show Declaration.readLet r.declared args = .ok (.assign name value) from h]
    exact push_eq_extend r _
  | resetTransforms => exact push_eq_extend r _
  | color args => exact pushWith_eq_extend line .color h
  | fill args => exact pushWith_eq_extend line .fill h
  | translate args => exact pushWith_eq_extend line .translate h
  | rotate args => exact pushWith_eq_extend line .rotate h
  | scale args => exact pushWith_eq_extend line .scale h
  | draw shape args =>
    exact (readCommand_draw r line shape _).trans (pushWith_eq_extend line (.draw shape) h)

theorem readCommand_loop (line : Nat) {count : Token} {args : List Char}
    (h : Declaration.readCount r.declared args = .ok count) :
    r.readCommand line "REPEAT" args = r.enter (.loop line count #[]) := by
  change r.openLoop line args = _
  rw [openLoop, h]
  rfl

theorem readCommand_choice (line : Nat) {condition : List Token} {args : List Char}
    (h : Declaration.readCondition r.declared args = .ok condition) :
    r.readCommand line "IF" args = r.enter (.choice line condition #[] none) := by
  change r.openChoice line args = _
  rw [openChoice, h]
  rfl

theorem readLine_terminator (r : Reading) (line : Nat) (kind : BlockKind) :
    r.readLine line kind.terminator.toList = r.close line kind := by
  rw [readLine_keyword r line (BlockKind.terminator_mem kind)]
  cases kind <;> rfl

theorem readLine_else (r : Reading) (line : Nat) :
    r.readLine line "ELSE".toList = r.turnToElse line :=
  readLine_keyword r line (by simp [keywords])

end Lines

end Reading

theorem Command.unnumberedAll_append (cs cs' : List Command) :
    unnumberedAll (cs ++ cs') = unnumberedAll cs ++ unnumberedAll cs' := by
  induction cs with
  | nil => rfl
  | cons c cs ih => rw [List.cons_append, unnumberedAll, ih, unnumberedAll, List.cons_append]

/-- Whether some lines are read as certain commands, up to the numbers of their lines, wherever
the variables of the first list are declared; then those of the second are. -/
def Lists (texts : List String) (cs : List Command) (d d' : List String) : Prop :=
  ∀ (r : Reading) (line : Nat), r.declared = d →
    ∃ cs', Command.unnumberedAll cs' = Command.unnumberedAll cs ∧
      r.readLines line (texts.map String.toList) = r.extend cs' d'

namespace Lists

variable {texts texts' : List String} {cs cs' yes no body : List Command}
  {d d₁ d₂ d' : List String} {line : Nat}

theorem nil : Lists [] [] d d := by
  rintro r line rfl
  exact ⟨[], rfl, rfl⟩

theorem append (h : Lists texts cs d d₁) (h' : Lists texts' cs' d₁ d') :
    Lists (texts ++ texts') (cs ++ cs') d d' := by
  intro r line hr
  obtain ⟨es, hes, hread⟩ := h r line hr
  obtain ⟨es', hes', hread'⟩ := h' (r.extend es d₁) (line + (texts.map String.toList).length) rfl
  refine ⟨es ++ es', ?_, ?_⟩
  · rw [Command.unnumberedAll_append, Command.unnumberedAll_append, hes, hes']
  · rw [List.map_append, Reading.readLines_append, hread, hread', Reading.extend_extend]

theorem act {a : Action} (hc : (Command.act line a).Legible d)
    (hkeys : ∀ key ∈ (Command.act line a).ownKeys, ∀ c ∈ key.toList, isBlank c = false) :
    Lists [a.summary] [.act line a] d (d ++ (Command.act line a).declares) := by
  rintro r at' rfl
  obtain ⟨hread, hline⟩ := Reading.readLine_summary at' hc hkeys
  refine ⟨[.act at' a], rfl, ?_⟩
  have hdeclares : (Command.act line a).declares = (Command.act at' a).declares := by
    cases a <;> rfl
  rw [hdeclares, List.map_singleton, Reading.readLines, Reading.readLines]
  exact hline.trans (Reading.readCommand_act at' hread)

theorem block {c : Command} {summary : String} (kind : BlockKind) (b : Nat → PendingBlock)
    (hopen : ∀ (r : Reading) (line : Nat), r.declared = d →
      r.readLine line summary.toList = r.enter (b line))
    (hkind : ∀ line, (b line).kind = kind)
    (hclose : ∀ line cs', Command.unnumberedAll cs' = Command.unnumberedAll cs →
      ((b line).closeWith cs').unnumbered = c.unnumbered)
    (h : Lists texts cs d d') :
    Lists (summary :: (texts ++ [kind.terminator])) [c] d d' := by
  intro r line hr
  obtain ⟨es, hes, hread⟩ := h (r.enter (b line)) (line + 1) hr
  refine ⟨[(b line).closeWith es], congrArg (· :: []) (hclose line es hes), ?_⟩
  rw [List.map_cons, List.map_append, Reading.readLines, hopen r line hr, Reading.readLines_append,
    hread, List.map_singleton, Reading.readLines, Reading.readLines, Reading.readLine_terminator,
    ← hkind line, Reading.close_extend]

theorem loop {count : Token} (hc : (Command.loop line count body).Legible d)
    (h : Lists texts body d d') :
    Lists ((Command.loop line count body).summary :: (texts ++ ["ENDREPEAT"]))
      [.loop line count body] d d' := by
  refine block .loop (fun line => .loop line count #[]) ?_ (fun _ => rfl) ?_ h
  · rintro r at' rfl
    obtain ⟨hread, hline⟩ := Reading.readLine_summary at' hc (List.forall_mem_nil _)
    exact hline.trans (Reading.readCommand_loop at' hread)
  · intro at' es hes
    simp [PendingBlock.closeWith, Command.unnumbered, hes]

variable {condition : List Token}

theorem readLine_choice {r : Reading} (line at' : Nat)
    (hc : (Command.choice line condition yes no).Legible r.declared) :
    r.readLine at' (Command.choice line condition yes no).summary.toList =
      r.enter (.choice at' condition #[] none) := by
  obtain ⟨hread, hline⟩ := Reading.readLine_summary at' hc (List.forall_mem_nil _)
  exact hline.trans (Reading.readCommand_choice at' hread)

theorem choice (hc : (Command.choice line condition yes []).Legible d) (h : Lists texts yes d d') :
    Lists ((Command.choice line condition yes []).summary :: (texts ++ ["ENDIF"]))
      [.choice line condition yes []] d d' := by
  refine block .choice (fun line => .choice line condition #[] none) ?_ (fun _ => rfl) ?_ h
  · rintro r at' rfl
    exact readLine_choice line at' hc
  · intro at' es hes
    simp [PendingBlock.closeWith, Command.unnumbered, hes]

theorem turned (hc : (Command.choice line condition yes no).Legible d)
    (hyes : Lists texts yes d d₁) (hno : Lists texts' no d₁ d') :
    Lists ((Command.choice line condition yes no).summary ::
        (texts ++ "ELSE" :: (texts' ++ ["ENDIF"])))
      [.choice line condition yes no] d d' := by
  rintro r at' rfl
  obtain ⟨es, hes, hread⟩ := hyes (r.enter (.choice at' condition #[] none)) (at' + 1) rfl
  obtain ⟨es', hes', hread'⟩ :=
    hno ((r.extend [] d₁).enter (.choice at' condition es.toArray (some #[])))
      (at' + 1 + (texts.map String.toList).length + 1) rfl
  have hclose := Reading.close_extend (r.extend [] d₁)
    (.choice at' condition es.toArray (some #[])) es' d'
  refine ⟨[.choice at' condition es es'], ?_, ?_⟩
  · simp [Command.unnumberedAll, Command.unnumbered, hes, hes']
  · rw [List.map_cons, List.map_append, List.map_cons, List.map_append, Reading.readLines,
      readLine_choice line at' hc, Reading.readLines_append, hread, Reading.readLines,
      Reading.readLine_else, Reading.turnToElse_extend, Reading.readLines_append, hread']
    refine (Reading.readLine_terminator _ _ .choice).trans ((hclose _).trans ?_)
    rw [Reading.extend_extend]
    simp [PendingBlock.closeWith]

end Lists

section Printing

variable {d d' : List String} {ls : List (Nat × String)} {cs : List Command}

theorem Lists.declared_eq {cs : List Command} (h : Lists [] cs d d') : d = d' := by
  obtain ⟨es, -, hread⟩ := h { declared := d } 1 rfl
  exact congrArg Reading.declared hread

theorem Command.listing_choice (line : Nat) (condition : List Token) (yes : List Command) :
    (Command.choice line condition yes []).listing =
      (Command.choice line condition yes []).summary :: (listingAll yes ++ ["ENDIF"]) := by
  simp [listing]

theorem Command.listing_turned (line : Nat) (condition : List Token) (yes : List Command)
    {no : List Command} (hne : no ≠ []) :
    (Command.choice line condition yes no).listing =
      (Command.choice line condition yes no).summary ::
        (listingAll yes ++ "ELSE" :: (listingAll no ++ ["ENDIF"])) := by
  simp [listing, hne]

theorem lists_of_spells (h : Spells d ls cs d')
    (hkeys : ∀ key ∈ Command.keysAll cs, ∀ c ∈ key.toList, isBlank c = false) :
    Lists (Command.listingAll cs) cs d d' := by
  induction h with
  | nil => exact .nil
  | define _ ih => exact ih hkeys
  | act hc _ ih =>
    obtain ⟨hact, hrest⟩ := List.forall_mem_append.1 hkeys
    exact (Lists.act hc hact).append (ih hrest)
  | loop hc _ _ ihbody ih =>
    obtain ⟨hbody, hrest⟩ := List.forall_mem_append.1 hkeys
    exact (Lists.loop hc (ihbody hbody)).append (ih hrest)
  | choice hc _ _ ihyes ih =>
    obtain ⟨hblock, hrest⟩ := List.forall_mem_append.1 hkeys
    obtain ⟨hyes, -⟩ := List.forall_mem_append.1 hblock
    rw [Command.listingAll, Command.listing_choice]
    exact (Lists.choice hc (ihyes hyes)).append (ih hrest)
  | @turned line _ _ condition _ d₁ d₂ _ _ _ _ yes no _ hc _ _ _ ihyes ihno ih =>
    obtain ⟨hblock, hrest⟩ := List.forall_mem_append.1 hkeys
    obtain ⟨hyes, hno⟩ := List.forall_mem_append.1 hblock
    by_cases hne : no = []
    · -- Nothing is listed for an empty `ELSE`, so nothing can have been declared in it.
      subst hne
      have hdeclared : d₁ = d₂ := (ihno hno).declared_eq
      subst hdeclared
      rw [Command.listingAll, Command.listing_choice]
      exact (Lists.choice hc (ihyes hyes)).append (ih hrest)
    · rw [Command.listingAll, Command.listing_turned line condition yes hne]
      exact (Lists.turned hc (ihyes hyes) (ihno hno)).append (ih hrest)

theorem oneLine_of_spells (h : Spells d ls cs d')
    (hkeys : ∀ key ∈ Command.keysAll cs, ∀ c ∈ key.toList, isBlank c = false) :
    ∀ text ∈ Command.listingAll cs, '\n' ∉ text.toList := by
  have hterminator (kind : BlockKind) : ∀ text ∈ [kind.terminator], '\n' ∉ text.toList :=
    List.forall_mem_singleton.2 (no_feed_keyword (BlockKind.terminator_mem kind))
  induction h with
  | nil => exact List.forall_mem_nil _
  | define _ ih => exact ih hkeys
  | act hc _ ih =>
    obtain ⟨hact, hrest⟩ := List.forall_mem_append.1 hkeys
    have hsummary := Command.oneLine_summary hc hact
    exact List.forall_mem_append.2 ⟨List.forall_mem_singleton.2 hsummary, ih hrest⟩
  | loop hc _ _ ihbody ih =>
    obtain ⟨hbody, hrest⟩ := List.forall_mem_append.1 hkeys
    have hsummary := Command.oneLine_summary hc (List.forall_mem_nil _)
    have hblock := List.forall_mem_append.2 ⟨ihbody hbody, hterminator .loop⟩
    exact List.forall_mem_append.2 ⟨List.forall_mem_cons.2 ⟨hsummary, hblock⟩, ih hrest⟩
  | choice hc _ _ ihyes ih =>
    obtain ⟨hblock, hrest⟩ := List.forall_mem_append.1 hkeys
    obtain ⟨hyes, -⟩ := List.forall_mem_append.1 hblock
    have hsummary := Command.oneLine_summary hc (List.forall_mem_nil _)
    have hinner := List.forall_mem_append.2 ⟨ihyes hyes, hterminator .choice⟩
    rw [Command.listingAll, Command.listing_choice]
    exact List.forall_mem_append.2 ⟨List.forall_mem_cons.2 ⟨hsummary, hinner⟩, ih hrest⟩
  | @turned line _ _ condition _ d₁ d₂ _ _ _ _ yes no _ hc _ _ _ ihyes ihno ih =>
    obtain ⟨hblock, hrest⟩ := List.forall_mem_append.1 hkeys
    obtain ⟨hyes, hno⟩ := List.forall_mem_append.1 hblock
    have hsummary := Command.oneLine_summary hc (List.forall_mem_nil _)
    refine List.forall_mem_append.2 ⟨List.forall_mem_cons.2 ⟨hsummary, ?_⟩, ih hrest⟩
    refine List.forall_mem_append.2 ⟨List.forall_mem_append.2 ⟨ihyes hyes, ?_⟩, hterminator .choice⟩
    split
    · exact List.forall_mem_nil _
    · exact List.forall_mem_cons.2 ⟨no_feed_keyword (by simp [keywords]), ihno hno⟩

end Printing

namespace Script

theorem lines_listing (s : Script)
    (h : ∀ text ∈ Command.listingAll s.commands, '\n' ∉ text.toList) :
    Text.lines s.listing.toList = (Command.listingAll s.commands).map String.toList ++ [[]] := by
  have htext : s.listing.toList =
      ((Command.listingAll s.commands).map String.toList).flatMap (· ++ ['\n']) := by
    simp [listing, String.toList_join, List.flatMap_map]
  have hlines : ∀ text ∈ (Command.listingAll s.commands).map String.toList, '\n' ∉ text := by
    simpa using h
  rw [htext, Text.lines_flatMap hlines]

/-- The listing of a script that compiles is a source of the same script. -/
theorem compile_listing {source : String} {script : Script} (h : compile source = .ok script)
    (hkeys : ∀ key ∈ script.keys, ∀ c ∈ key.toList, isBlank c = false) :
    ∃ reread, compile script.listing = .ok reread ∧
      Command.unnumberedAll reread.commands = Command.unnumberedAll script.commands ∧
      reread.declared = script.declared := by
  have hspells := spells_of_compile h
  obtain ⟨cs, hcs, hread⟩ := lists_of_spells hspells hkeys {} 1 rfl
  have hsource : Reading.ofSource script.listing =
      { commands := cs.toArray, declared := script.declared } := by
    rw [Reading.ofSource, lines_listing script (oneLine_of_spells hspells hkeys),
      Reading.readLines_append, hread, Reading.extend_start]
    rfl
  refine ⟨⟨cs, .empty, script.declared⟩, ?_, hcs, rfl⟩
  rw [compile, hsource]
  simp [Reading.result, Reading.script]

theorem compile_listing_of_quoted :
    let source := "VAR $a = 3 - -2\n# note\nif $a<=-$HOUR THEN\n" ++
      "draw x = -1 name=\"say \\\"hi\\\"\"\nELSE\nENDIF\n"
    ∃ script, compile source = .ok script ∧
      script.listing = "VAR $A = 3 - -2\nIF $A <= -$HOUR THEN\n" ++
        "DRAW NAME=\"say \\\"hi\\\"\" X=-1\nENDIF\n" ∧
      (∀ key ∈ script.keys, ∀ c ∈ key.toList, isBlank c = false) ∧
      ∃ reread, compile script.listing = .ok reread ∧
        Command.unnumberedAll reread.commands = Command.unnumberedAll script.commands ∧
        reread.declared = script.declared := by
  intro source
  have hread : (compile source).toOption.map (fun script => (script.listing, script.keys)) =
      some ("VAR $A = 3 - -2\nIF $A <= -$HOUR THEN\n" ++
        "DRAW NAME=\"say \\\"hi\\\"\" X=-1\nENDIF\n", ["NAME", "X"]) := by
    decide +kernel
  cases hcompile : compile source with
  | error errors =>
    rw [hcompile] at hread
    cases hread
  | ok script =>
    rw [hcompile] at hread
    obtain ⟨hlisting, hnames⟩ := Prod.mk.inj (Option.some.inj hread)
    have hplain : ∀ key ∈ ["NAME", "X"], key.toList.any isBlank = false := by decide
    have hkeys : ∀ key ∈ script.keys, ∀ c ∈ key.toList, isBlank c = false := by
      rw [show script.keys = ["NAME", "X"] from hnames]
      exact fun key hkey => Text.nonblank_of_any (hplain key hkey)
    exact ⟨script, rfl, hlisting, hkeys, compile_listing hcompile hkeys⟩

end Script

end PatternScript
