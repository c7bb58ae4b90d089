import PatternScript.Preview.Shown
import PatternScript.Proofs.JobOutcomes
import PatternScript.Proofs.Running.Interruption

/-!
# The preview and render jobs

The preview reads, generates and renders by itself what a render job does as one task. For
every source that can be read it shows what a job that nobody interrupts paints and counts. A
source that cannot be read is shown as the built-in script, or as nothing at all, together with
its errors.
-/
namespace PatternScript

namespace Canvas

theorem max_zero_of_pos {side : Int32} (h : 1 ≤ side) : max side 0 = side := by
  refine Int32.toInt_inj.1 ?_
  rw [Words.le_iff] at h
  rw [Words.toInt_max]
  exact Int.max_eq_left (Int.le_trans (by decide) h)

theorem white_of_mem_blank {width height : Int32} {color : Color}
    (h : color ∈ (blank width height).pixels) : color = .white :=
  (Array.mem_replicate.1 h).2

end Canvas

variable {source : String} {errors : List ParseError} {script : Script}

namespace Job

variable {canvas : Canvas} {options : RenderSettings}

theorem down_generated (state : HostState) (canvas : Canvas) (script : Script) :
    (generated {} state canvas script).last.signal.raised = false :=
  Generation.raised_run_quiet script _

theorem complete_generated (state : HostState) (canvas : Canvas) (script : Script) :
    (generated {} state canvas script).progress = .complete := by
  have hdown := down_generated state canvas script
  change (if (!(generated {} state canvas script).last.signal.raised) = true then Progress.complete
    else .interrupted) = .complete
  rw [hdown]
  rfl

theorem run_of_compile (hblank : (Text.trim source.toList).isEmpty = false)
    (hscript : Script.compile source = .ok script) (state : HostState) (before : Signal) :
    ∃ warnings, run {} options source state canvas before =
      render {} options (generated {} state canvas script) canvas warnings := by
  have hends : Ends {} options source state canvas (run {} options source state canvas before) :=
    ends_run before
  generalize run {} options source state canvas before = r at hends
  cases hends with
  | blank hempty => simp [hblank] at hempty
  | rejected _ herrors => simp [hscript] at herrors
  | stopped _ _ hstopped => simp [complete_generated] at hstopped
  | @rendered warnings _ _ hscript' _ =>
    rw [hscript, Except.ok.injEq] at hscript'
    subst hscript'
    exact ⟨warnings, rfl⟩

theorem done_render {s : Session} (hdown : s.last.signal.raised = false)
    (warnings : List String) : (render {} options s canvas warnings).outcome = .done := by
  have hcompleted : (Rendering.run {} options s.items canvas s.last.signal).completed = true :=
    Rendering.completed_undisturbed hdown
  simp [render, hcompleted]

end Job

theorem Reading.ne_nil_of_result {r : Reading} (h : r.result = .error errors) : errors ≠ [] := by
  rw [result] at h
  split at h
  · cases h
  · next hempty =>
    cases h
    simpa using hempty

namespace Shown

/-- What is shown of a script is the same, whatever is said of the source. -/
structure SameRun (a b : Shown) : Prop where
  canvas : a.canvas = b.canvas
  stats : a.stats = b.stats
  items : a.items = b.items
  runtimeErrors : a.runtimeErrors = b.runtimeErrors
  script : a.script = b.script

theorem SameRun.symm {a b : Shown} (h : SameRun a b) : SameRun b a :=
  ⟨h.canvas.symm, h.stats.symm, h.items.symm, h.runtimeErrors.symm, h.script.symm⟩

theorem SameRun.trans {a b c : Shown} (h : SameRun a b) (h' : SameRun b c) : SameRun a c :=
  ⟨h.canvas.trans h'.canvas, h.stats.trans h'.stats, h.items.trans h'.items,
    h.runtimeErrors.trans h'.runtimeErrors, h.script.trans h'.script⟩

theorem SameRun.relabel (shown : Shown) (parseErrors : List ParseError) (usedBuiltin : Bool)
    (remarks : List String) : SameRun { shown with parseErrors, usedBuiltin, remarks } shown :=
  ⟨rfl, rfl, rfl, rfl, rfl⟩

variable (state : HostState) (config : Config)

theorem ofReading_of_compile (h : Script.compile source = .ok script) :
    ofReading (.ofSource source) state config = ofScript script state config := by
  have hresult : (Reading.ofSource source).result = .ok script := h
  rw [ofReading, hresult]

theorem ofReading_of_faulty (h : Script.compile source = .error errors) :
    ofReading (.ofSource source) state config =
      { nothing config with parseErrors := errors } := by
  have hresult : (Reading.ofSource source).result = .error errors := h
  rw [ofReading, hresult]

theorem ofSource_of_kept {fallback : Bool}
    (h : (ofReading (.ofSource source) state config).parseErrors = [] ∨ fallback = false) :
    ∃ remarks, ofSource source state config fallback =
      { ofReading (.ofSource source) state config with remarks } := by
  rw [ofSource]
  exact ⟨_, if_pos (by simpa using h)⟩

theorem ofSource_of_replaced (h : Script.compile source = .error errors) :
    (ofSource source state config true).parseErrors = errors ∧
      (ofSource source state config true).usedBuiltin = true ∧
      SameRun (ofSource source state config true)
        (ofReading (.ofSource Script.builtinSource) state config) := by
  have hne : (errors.isEmpty || !true) = false := by simpa using Reading.ne_nil_of_result h
  -- What is shown of the built-in script must stay folded.
  generalize hbuiltin : ofReading (.ofSource Script.builtinSource) state config = builtin
  rw [ofSource, ofReading_of_faulty state config h, hbuiltin]
  dsimp only
  rw [hne, if_neg Bool.false_ne_true]
  exact ⟨rfl, rfl, .relabel builtin errors true _⟩

theorem sameRun_builtin (fallback : Bool) :
    SameRun (ofSource Script.builtinSource state config fallback)
      (ofReading (.ofSource Script.builtinSource) state config) := by
  generalize hbuiltin : ofReading (.ofSource Script.builtinSource) state config = builtin
  rw [ofSource, hbuiltin]
  dsimp only
  split <;> exact .relabel builtin _ _ _

theorem ofScript_eq_job (script : Script) (hwidth : 1 ≤ config.width) (hheight : 1 ≤ config.height)
    (warnings : List String) :
    let canvas := Canvas.blank config.width config.height
    let job := Job.render {} { block := config.block } (Job.generated {} state canvas script)
      canvas warnings
    job.outcome = .done ∧ (ofScript script state config).canvas = job.canvas ∧
      (ofScript script state config).stats = job.stats ∧
      (ofScript script state config).items.length = job.itemCount ∧
      (ofScript script state config).runtimeErrors = job.errors := by
  intro canvas job
  have hgenerated : Job.generated {} state canvas script = Session.generate
      { script, width := config.width, height := config.height, host := state } := by
    simp only [Job.generated, canvas, Canvas.blank, Canvas.max_zero_of_pos hwidth,
      Canvas.max_zero_of_pos hheight]
    rfl
  have hdown := Job.down_generated state canvas script
  obtain ⟨hcanvas, hstats⟩ :
      job.canvas = (Rendering.run {} { block := config.block }
        (Job.generated {} state canvas script).items canvas {}).canvas ∧
      job.stats = (Rendering.run {} { block := config.block }
        (Job.generated {} state canvas script).items canvas {}).stats :=
    Rendering.run_undisturbed hdown
  rw [hgenerated] at hcanvas hstats
  refine ⟨Job.done_render hdown warnings, hcanvas.symm, hstats.symm, ?_, ?_⟩
  · simp only [job, Job.render, hgenerated]
    rfl
  · simp only [job, Job.render, hgenerated]
    rfl

/-- The preview of a source that can be read and is not blank is what a job that nobody
interrupts makes of it on a new surface. A source that cannot be read is shown as the built-in
script or, when that is not wanted, as a white surface, and its errors are kept. -/
theorem agrees_with_job (source : String) (hwidth : 1 ≤ config.width)
    (hheight : 1 ≤ config.height) :
    (∀ script, Script.compile source = .ok script → (Text.trim source.toList).isEmpty = false →
      ∀ fallback before,
        let shown := ofSource source state config fallback
        let job := Job.run {} { block := config.block } source state
          (.blank config.width config.height) before
        job.outcome = .done ∧ shown.canvas = job.canvas ∧ shown.stats = job.stats ∧
          shown.items.length = job.itemCount ∧ shown.runtimeErrors = job.errors ∧
          shown.script = some script ∧ shown.parseErrors = [] ∧ shown.usedBuiltin = false) ∧
    ∀ errors, Script.compile source = .error errors →
      ((ofSource source state config true).parseErrors = errors ∧
        (ofSource source state config true).usedBuiltin = true ∧
        ∀ fallback, SameRun (ofSource source state config true)
          (ofSource Script.builtinSource state config fallback)) ∧
      let shown := ofSource source state config false
      shown.parseErrors = errors ∧ shown.canvas = .blank config.width config.height ∧
        (∀ color ∈ shown.canvas.pixels, color = .white) ∧ shown.items = [] ∧
        shown.stats = {} ∧ shown.runtimeErrors = [] ∧ shown.script = none := by
  constructor
  · intro script hscript hblank fallback before shown job
    have hreading := ofReading_of_compile state config hscript
    obtain ⟨remarks, hshown⟩ : ∃ remarks, shown = { ofReading _ state config with remarks } :=
      ofSource_of_kept state config (.inl (by rw [hreading]; rfl))
    obtain ⟨warnings, hjob⟩ : ∃ warnings, job = _ :=
      Job.run_of_compile hblank hscript state before
    obtain ⟨hdone, hcanvas, hstats, hitems, herrors⟩ :=
      ofScript_eq_job state config script hwidth hheight warnings
    rw [hshown, hjob, hreading]
    exact ⟨hdone, hcanvas, hstats, hitems, herrors, rfl, rfl, rfl⟩
  · intro errors herrors
    constructor
    · obtain ⟨hkept, hbuiltin, hsame⟩ := ofSource_of_replaced state config herrors
      refine ⟨hkept, hbuiltin, ?_⟩
      intro fallback
      exact hsame.trans (sameRun_builtin state config fallback).symm
    · intro shown
      obtain ⟨remarks, hshown⟩ : ∃ remarks, shown = { ofReading _ state config with remarks } :=
        ofSource_of_kept state config (.inr rfl)
      rw [hshown, ofReading_of_faulty state config herrors]
      exact ⟨rfl, rfl, fun color => Canvas.white_of_mem_blank, rfl, rfl, rfl, rfl⟩

theorem agrees_with_job_of_point :
    let config : Config := { width := 2, height := 1, block := 1 }
    let job := Job.run {} { block := 1 } "PIXEL X=0 Y=0" {} (.blank 2 1) { raised := true }
    job.itemCount = 1 ∧ (ofSource "PIXEL X=0 Y=0" {} config true).canvas = job.canvas ∧
      SameRun (ofSource "ENDIF" {} config true) (ofSource Script.builtinSource {} config false) ∧
      (ofSource "ENDIF" {} config false).canvas = .blank 2 1 := by
  intro config job
  have hnone : (Reading.ofSource "PIXEL X=0 Y=0").errors.isEmpty = true := by decide +kernel
  have hsome : ¬ (Reading.ofSource "ENDIF").errors.isEmpty = true := by decide +kernel
  have hread : Script.compile "PIXEL X=0 Y=0" = .ok (Reading.ofSource "PIXEL X=0 Y=0").script := by
    rw [Script.compile, Reading.result, if_pos hnone]
  have hfaulty : Script.compile "ENDIF" = .error (Reading.ofSource "ENDIF").errors.toList := by
    rw [Script.compile, Reading.result, if_neg hsome]
  have hitems : job.itemCount = 1 := by decide +kernel
  have hpoint := agrees_with_job {} config "PIXEL X=0 Y=0" (by decide) (by decide)
  have hend := agrees_with_job {} config "ENDIF" (by decide) (by decide)
  obtain ⟨-, hcanvas, -⟩ := hpoint.1 _ hread (by decide +kernel) true { raised := true }
  obtain ⟨⟨-, -, hsame⟩, -, hblank, -⟩ := hend.2 _ hfaulty
  exact ⟨hitems, hcanvas, hsame false, hblank⟩

end Shown

end PatternScript
