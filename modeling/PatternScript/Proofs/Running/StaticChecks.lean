import PatternScript.Proofs.Reading.Growth
import PatternScript.Proofs.Running.Visits

/-!
# What the reader's checks are worth at run time

Before every visit the host's variables are there, and so is every variable that a command
outside all blocks declared on the way. With the scopes that the reader checked this leaves
few faults: a text where an integer is due, `$INDEX` outside every loop, and a variable
whose `VAR` stands in a block that was passed over.
-/
namespace PatternScript

open Command (names headers Occurs)

namespace Store

theorem hasUser_setUser {s : Store} {name other : String} {value : Int32} :
    (s.setUser name value).hasUser other = true ↔ other = name ∨ s.hasUser other = true := by
  simp only [hasUser, setUser, NameMap.contains, NameMap.get?_set]
  split
  next h => simp [h]
  next h => simp [h]

end Store

namespace Generation

variable {host : Host} {patterns : PatternTable} {index : Option Int32} {g : Generation}
  {declared : List String} {name : String}

theorem vars_transform (line : Nat) (t : Affine) (g : Generation) :
    (g.transform line t).vars = g.vars := by
  rw [transform]
  split <;> rfl

theorem vars_draw (patterns : PatternTable) (line : Nat) (index : Option Int32) (shape : Shape)
    (args : Arguments) (g : Generation) :
    (g.draw patterns line index shape args).vars = g.vars := by
  rw [draw]
  dsimp only
  split
  · split <;> rfl
  · rfl

theorem vars_declare (patterns : PatternTable) (line : Nat) (index : Option Int32) (name : String)
    (init : List Token) (g : Generation) :
    ∃ value, (g.act patterns line index (.declare name init)).vars =
      g.vars.setUser name value := by
  cases init with
  | nil => exact ⟨_, rfl⟩
  | cons t init => exact ⟨_, rfl⟩

theorem vars_act (patterns : PatternTable) (line : Nat) (index : Option Int32) (a : Action)
    (g : Generation) : (g.act patterns line index a).vars = g.vars ∨
    ∃ name value, (g.act patterns line index a).vars = g.vars.setUser name value := by
  cases a with
  | declare name init => exact Or.inr ⟨name, vars_declare _ _ _ name init g⟩
  | assign name value =>
    rw [act]
    dsimp only
    split
    · exact Or.inr ⟨name, _, rfl⟩
    · exact Or.inl rfl
  | color args | fill args | resetTransforms | scale args => exact Or.inl rfl
  | translate args | rotate args => exact Or.inl (vars_transform _ _ _)
  | draw shape args => exact Or.inl (vars_draw _ _ _ shape args g)

structure Bound (declared : List String) (g : Generation) : Prop where
  environment : ∀ name, isEnvironmentName name = true → name ≠ indexName →
    (g.vars.environment.get? name).isSome = true
  user : ∀ name ∈ declared, g.vars.hasUser name = true

theorem bound_setUser (h : Bound declared g) {g' : Generation} {value : Int32}
    (hvars : g'.vars = g.vars.setUser name value) : Bound (declared ++ [name]) g' where
  environment := by
    rw [hvars]
    exact h.environment
  user other hother := by
    rw [hvars, Store.hasUser_setUser]
    rcases List.mem_append.1 hother with hother | hother
    · exact Or.inr (h.user other hother)
    · exact Or.inl (List.mem_singleton.1 hother)

theorem bound_mono {declared' : List String} (h : Bound declared g)
    (hsub : ∀ name ∈ declared', name ∈ declared) : Bound declared' g :=
  ⟨h.environment, fun name hname => h.user name (hsub name hname)⟩

theorem stable_bound (patterns : PatternTable) (declared : List String) :
    Stable patterns (Bound declared) where
  poll _ _ h := ⟨h.environment, h.user⟩
  yield _ _ h := ⟨h.environment, h.user⟩
  fault _ _ _ h := ⟨h.environment, h.user⟩
  act line index a g h := by
    rcases vars_act patterns line index a g with hvars | ⟨name, value, hvars⟩
    · exact ⟨hvars ▸ h.environment, hvars ▸ h.user⟩
    · exact bound_mono (bound_setUser h hvars) fun _ => List.mem_append_left _

theorem bound_execute (c : Command) (h : Bound declared g) :
    Bound (declared ++ c.declares) (execute host patterns index c g) := by
  have hexecute : Bound declared (execute host patterns index c g) :=
    (stable_bound patterns declared).execute index c g h
  cases c with
  | act line a =>
    cases a with
    | declare name init =>
      obtain ⟨value, hvars⟩ := vars_declare patterns line index name init g
      rw [execute]
      exact bound_setUser h hvars
    | _ => exact bound_mono hexecute (by simp [Command.declares])
  | loop | choice => exact bound_mono hexecute (by simp [Command.declares])

theorem exists_top_of_mem_visitsFrom {v : Visit} (done : Nat) (cs : List Command)
    (h : Bound declared g) (hv : v ∈ visitsFrom host patterns done cs g) :
    ∃ front c back g', cs = front ++ c :: back ∧ Bound (declared ++ names front) g' ∧
      v ∈ visits host patterns [] none c g' := by
  induction cs generalizing done declared g with
  | nil => cases hv
  | cons c rest ih =>
    rw [visitsFrom] at hv
    dsimp only at hv
    split at hv
    · cases hv
    · have hpoll := (stable_bound patterns declared).poll host g h
      rcases List.mem_append.1 hv with hv | hv
      · refine ⟨[], c, rest, _, rfl, ?_, hv⟩
        exact bound_mono hpoll (by simp [names])
      · obtain ⟨front, c', back, g', rfl, hbound, hv⟩ := ih (done + 1)
          ((stable_bound patterns _).yieldIf _ (bound_execute c hpoll)) hv
        refine ⟨c :: front, c', back, g', rfl, ?_, hv⟩
        rwa [Command.names_cons, ← List.append_assoc]

end Generation

theorem Command.headers_of_mem_inner {b c : Command} (h : c ∈ b.inner) :
    ∃ before after, headers [b] = before ++ headers [c] ++ after := by
  obtain ⟨front, back, hinner⟩ := List.append_of_mem h
  refine ⟨b.header :: headers front, headers back, ?_⟩
  have hcons : headers (c :: back) = headers [c] ++ headers back := headers_append [c] back
  rw [headers_singleton, hinner, headers_append, hcons, List.cons_append, List.cons_append,
    List.append_assoc]

theorem Command.mem_position_of_act {line : Nat} {a : Action} {c : Command}
    {before after : List Command}
    (h : headers [.act line a] = before ++ headers [c] ++ after) :
    .act line a ∈ headers [c] ++ after := by
  have hone : headers [.act line a] = [.act line a] := rfl
  rw [hone, headers_singleton] at h
  cases before with
  | nil =>
    rw [headers_singleton, ← List.nil_append (_ :: _), ← h]
    exact List.mem_cons_self
  | cons d before =>
    have hlength := congrArg List.length h
    simp at hlength

/-- Where a visit stands in a script: within its blocks, outside loops when there is no
iteration, and among the headers of a command outside all blocks. -/
structure Visit.Placed (cs : List Command) (top : Command) (declared : List String) (v : Visit) :
    Prop where
  occurs : Occurs cs v.blocks v.command
  outside : v.index = none → ∀ line count body, .loop line count body ∉ v.blocks
  position : ∃ before after, headers [top] = before ++ headers [v.command] ++ after
  bound : Generation.Bound declared v.before

namespace Visit

theorem position_inside {top b c : Command} (hc : c ∈ b.inner)
    (h : ∃ before after, headers [top] = before ++ headers [b] ++ after) :
    ∃ before after, headers [top] = before ++ headers [c] ++ after := by
  obtain ⟨before, after, htop⟩ := h
  obtain ⟨before', after', hb⟩ := Command.headers_of_mem_inner hc
  exact ⟨before ++ before', after' ++ after, by simp only [htop, hb, List.append_assoc]⟩

theorem inherited_placed (cs : List Command) (top : Command) (declared : List String) :
    Generation.Inherited (Generation.Bound declared) (Placed cs top declared) where
  loop blocks index before line count body i c g h hc hg :=
    ⟨.inside h.occurs hc, nofun, position_inside (b := .loop line count body) hc h.position, hg⟩
  choice blocks index before line condition yes no c g h hc hg := by
    refine ⟨.inside h.occurs hc, ?_,
      position_inside (b := .choice line condition yes no) hc h.position, hg⟩
    intro hindex line' count body hmem
    rcases List.mem_cons.1 hmem with heq | hmem
    · cases heq
    · exact h.outside hindex line' count body hmem

end Visit

namespace Script

variable {script : Script} {name : String}

def DeclaresInBlock (script : Script) (name : String) : Prop :=
  name ∈ script.declared ∧
    (∃ blocks line init, Occurs script.commands blocks (.act line (.declare name init))) ∧
    ∀ blocks line init, Occurs script.commands blocks (.act line (.declare name init)) →
      blocks ≠ []

theorem declaresInBlock_of_unbound (hscoped : script.Scoped) {front back : List Command}
    {top : Command} {v : Visit} (hcommands : script.commands = front ++ top :: back)
    (hv : v.Placed script.commands top (names front)) {before after : List Command}
    (hposition : headers [top] = before ++ headers [v.command] ++ after)
    (hname : name ∈ names (headers front ++ before))
    (hunbound : v.before.vars.hasUser name = false) : script.DeclaresInBlock name := by
  have hheaders : headers script.commands =
      (headers front ++ before) ++ (headers [v.command] ++ after ++ headers back) := by
    rw [hcommands, Command.headers_append, ← List.singleton_append, Command.headers_append,
      hposition]
    simp only [List.append_assoc]
  have hnodup := hscoped.nodup
  rw [hscoped.declared_eq, hheaders, Command.names_append, List.nodup_append] at hnodup
  have hdeclared : name ∈ script.declared := by
    rw [hscoped.declared_eq, hheaders, Command.names_append]
    exact List.mem_append_left _ hname
  refine ⟨hdeclared, Command.occurs_declare (hscoped.declared_eq ▸ hdeclared), ?_⟩
  intro blocks line init hocc hnil
  subst hnil
  cases hocc with
  | top hmem =>
    -- A `VAR` outside all blocks was run before the visit, or its header comes too late.
    have hlate : .act line (.declare name init) ∉ headers [v.command] ++ after ++ headers back := by
      intro hlate
      exact hnodup.2.2 name hname name (Command.mem_names_iff.2 ⟨line, init, hlate⟩) rfl
    rw [hcommands] at hmem
    rcases List.mem_append.1 hmem with hmem | hmem
    · have hbound := hv.bound.user name (Command.mem_names_iff.2 ⟨line, init, hmem⟩)
      rw [hunbound] at hbound
      cases hbound
    · rcases List.mem_cons.1 hmem with rfl | hmem
      · exact hlate (List.mem_append_left _ (Command.mem_position_of_act hposition))
      · exact hlate (List.mem_append_right _ (Command.header_mem_headers hmem))

end Script

/-- What the reader's checks leave of the faults of a visit: a text for an integer parameter,
an index outside every loop, and a variable with its `VAR` in a block. -/
structure Visit.Excused (script : Script) (v : Visit) (cause : RuntimeCause) : Prop where
  malformed : cause.code = .malformed →
    ∃ text, v.command.HasText text ∧ cause = .notInteger (.text text)
  index : cause.code = .indexOutsideLoop → ∀ line count body, .loop line count body ∉ v.blocks
  unbound : cause.code = .unresolved ∨ cause.code = .undeclared →
    ∃ name, (cause = .undefined name ∨ cause = .assignUndeclared name) ∧
      script.DeclaresInBlock name

namespace Visit

variable {script : Script} {v : Visit} {cause : RuntimeCause} {name : String}

theorem excused_of_not_guarded (h : ¬ cause.Guarded) : v.Excused script cause where
  malformed hcode := absurd (Or.inl hcode) h
  index hcode := absurd (Or.inr (Or.inl hcode)) h
  unbound hcode := absurd (Or.inr (Or.inr hcode)) h

theorem excused_of_text {text : String} (h : v.command.HasText text) :
    v.Excused script (.notInteger (.text text)) where
  malformed _ := ⟨text, h, rfl⟩
  index hcode := by cases hcode
  unbound hcode := by rcases hcode with hcode | hcode <;> cases hcode

theorem excused_of_index (h : ∀ line count body, .loop line count body ∉ v.blocks) :
    v.Excused script .indexOutsideLoop where
  malformed hcode := by cases hcode
  index _ := h
  unbound hcode := by rcases hcode with hcode | hcode <;> cases hcode

theorem excused_of_unbound (h : script.DeclaresInBlock name)
    (hcause : cause = .undefined name ∨ cause = .assignUndeclared name) :
    v.Excused script cause where
  malformed hcode := by rcases hcause with rfl | rfl <;> cases hcode
  index hcode := by rcases hcause with rfl | rfl <;> cases hcode
  unbound _ := ⟨name, hcause, h⟩

theorem not_bound_of_get? {g : Generation} {declared : List String}
    (h : Generation.Bound declared g) (hname : name ≠ indexName) (hget : g.vars.get? name = none) :
    isEnvironmentName name = false ∧ g.vars.hasUser name = false := by
  rw [Store.get?] at hget
  cases henv : g.vars.environment.get? name with
  | some n => simp [henv] at hget
  | none =>
    constructor
    · cases hhost : isEnvironmentName name with
      | false => rfl
      | true =>
        have hsome := h.environment name hhost hname
        rw [henv] at hsome
        cases hsome
    · rw [henv] at hget
      rw [Store.hasUser, NameMap.contains, show g.vars.user.get? name = none from hget]
      rfl

theorem excused_of_placed (hscoped : script.Scoped) {front back : List Command} {top : Command}
    (hcommands : script.commands = front ++ top :: back)
    (hv : v.Placed script.commands top (names front))
    (hcause : cause ∈ v.command.faults script.patterns v.index v.before) :
    v.Excused script cause := by
  by_cases hguarded : cause.Guarded
  · obtain ⟨before, after, hposition⟩ := hv.position
    have hadmissible : v.command.Admissible (names (headers front ++ before)) := by
      have hwell := hscoped.wellScoped
      rw [hcommands, Command.headers_append, ← List.singleton_append, Command.headers_append,
        hposition, Command.headers_singleton] at hwell
      simp only [List.append_assoc, List.cons_append] at hwell
      rw [← List.append_assoc] at hwell
      exact Command.admissible_header.1 (Command.admissible_of_wellScoped hwell)
    have hinBlock {name : String} (hname : name ∈ names (headers front ++ before))
        (hunbound : v.before.vars.hasUser name = false) : script.DeclaresInBlock name :=
      Script.declaresInBlock_of_unbound hscoped hcommands hv hposition hname hunbound
    rcases Command.mem_faults_cases hadmissible.shaped hcause hguarded with
      ⟨ref, href, hread⟩ | ⟨text, htext, rfl⟩ | ⟨line, name, value, hassign, hunbound, hcause⟩
    · rcases Evaluation.mem_faults_readVariable hread with
        ⟨rfl, hindex⟩ | ⟨hundefined, hname, hget⟩
      · exact excused_of_index (hv.outside hindex)
      · obtain ⟨hhost, hunbound⟩ := not_bound_of_get? hv.bound hname hget
        have hdeclared := (hadmissible.known ref href).resolve_left (by simp [hhost])
        exact excused_of_unbound (hinBlock hdeclared hunbound) (Or.inl hundefined)
    · exact excused_of_text htext
    · exact excused_of_unbound
        (hinBlock (hadmissible.target line name value hassign) hunbound) (Or.inr hcause)
  · exact excused_of_not_guarded hguarded

end Visit

namespace Session

theorem bound_start (s : Session) : Generation.Bound [] s.start where
  environment name hname hindex := by
    have hmem : name ∈ environmentNames := by simpa [isEnvironmentName] using hname
    simp only [start, environment, Store.setEnvironment, NameMap.get?_set]
    simp only [environmentNames, List.mem_cons, List.not_mem_nil, or_false] at hmem
    rcases hmem with rfl | rfl | rfl | rfl | rfl | rfl | rfl
    · simp
    · simp
    · simp
    · simp
    · simp
    · simp
    · exact absurd rfl hindex
  user name hname := by cases hname

theorem exists_placed (s : Session) {atPoll : Nat → Bool} {v : Visit} (hv : v ∈ s.visits atPoll) :
    ∃ front top back, s.script.commands = front ++ top :: back ∧
      v.Placed s.script.commands top (names front) := by
  obtain ⟨front, top, back, g, hcommands, hbound, hv⟩ :=
    Generation.exists_top_of_mem_visitsFrom 0 s.script.commands s.bound_start hv
  rw [List.nil_append] at hbound
  have htop : top ∈ s.script.commands := by
    rw [hcommands]
    exact List.mem_append_right _ List.mem_cons_self
  exact ⟨front, top, back, hcommands, Generation.forall_visits (Generation.stable_bound _ _)
    (Visit.inherited_placed s.script.commands top (names front)) [] none top g hbound
    ⟨.top htop, nofun, ⟨[], [], by simp⟩, hbound⟩ v hv⟩

/-- What is recorded while a script runs that was read without an error: the faults of the
commands that are executed, in turn and each with the line of its command, and of these only
what the reader's checks leave. -/
theorem errors_are_excused {source : String} {script : Script}
    (hcompile : Script.compile source = .ok script) (s : Session) (hs : s.script = script)
    (atPoll : Nat → Bool) :
    (s.generate atPoll).errors = (s.visits atPoll).flatMap (Visit.errors script.patterns) ∧
      ∀ v ∈ s.visits atPoll, Occurs script.commands v.blocks v.command ∧
        ∀ cause ∈ v.command.faults script.patterns v.index v.before, v.Excused script cause := by
  subst hs
  refine ⟨s.errors_generate atPoll, ?_⟩
  intro v hv
  obtain ⟨front, top, back, hcommands, hplaced⟩ := s.exists_placed hv
  exact ⟨hplaced.occurs, fun cause hcause =>
    Visit.excused_of_placed (Script.scoped_of_compile hcompile) hcommands hplaced hcause⟩

theorem errors_are_excused_of_skipped_var :
    let source := "IF 1 == 2 THEN\nVAR $a\nENDIF\nLET $a = 1\nTRANSLATE DX=$INDEX DY=far\n"
    ∃ script, Script.compile source = .ok script ∧
      ({ script, width := 4, height := 4 } : Session).generate.errors =
        [⟨4, .assignUndeclared "$A"⟩, ⟨5, .indexOutsideLoop⟩, ⟨5, .notInteger (.text "far")⟩] ∧
      ∀ v ∈ ({ script, width := 4, height := 4 } : Session).visits fun _ => false,
        ∀ cause ∈ v.command.faults script.patterns v.index v.before, v.Excused script cause := by
  intro source
  have hrun : (Script.compile source).toOption.map (fun script =>
      ({ script, width := 4, height := 4 } : Session).generate.errors) =
      some [⟨4, .assignUndeclared "$A"⟩, ⟨5, .indexOutsideLoop⟩,
        ⟨5, .notInteger (.text "far")⟩] := by
    decide +kernel
  cases hcompile : Script.compile source with
  | error errors =>
    rw [hcompile] at hrun
    cases hrun
  | ok script =>
    rw [hcompile] at hrun
    refine ⟨script, rfl, Option.some.inj hrun, ?_⟩
    intro v hv
    exact ((errors_are_excused hcompile { script, width := 4, height := 4 } rfl _).2 v hv).2

end Session

end PatternScript
