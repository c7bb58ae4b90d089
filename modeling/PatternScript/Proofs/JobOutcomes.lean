import PatternScript.Proofs.Culling.Stopping
import PatternScript.Raster.Job

/-!
# Outcomes of render jobs

A job ends in one of four ways: it refuses a blank source, it refuses a source that does not
compile, its generation is interrupted, or it comes to render what was generated. Only the last
one touches the surface and counts anything, and only it can end well. What the job reports
follows from the way it ended, and no runtime error is part of that.
-/
namespace PatternScript

theorem JobOutcome.message_eq_empty_iff {outcome : JobOutcome} :
    outcome.message = "" ↔ outcome.success = true := by
  cases outcome with
  | blank => simp [message, success]
  | rejected errors =>
    have hne : "\n".intercalate ("Parse failed:" :: errors.map ParseError.text) ≠ "" := by
      intro h
      have hchars := congrArg String.toList h
      rw [String.toList_intercalate] at hchars
      cases errors <;> simp at hchars
    simp [message, success, hne]
  | generationStopped => simp [message, success]
  | renderingStopped => simp [message, success]
  | done => simp [message, success]

theorem JobOutcome.not_success_of_interrupted {outcome : JobOutcome}
    (h : outcome.interrupted = true) : outcome.success = false := by
  cases outcome <;> first | rfl | cases h

namespace Job

section Runs

variable (ctx : RenderContext) (options : RenderSettings) (source : String) (state : HostState)
  (canvas : Canvas)

def generated (script : Script) : Session :=
  Session.generate { script, width := canvas.width, height := canvas.height, host := state }
    ctx.host.atPoll

/-- The ways in which a job ends. -/
inductive Ends : JobResult → Prop where
  | blank {signal : Signal} {warnings : List String}
      (hblank : (Text.trim source.toList).isEmpty = true) :
      Ends { outcome := .blank, state, canvas, signal, warnings }
  | rejected {signal : Signal} {warnings : List String} {errors : List ParseError}
      (hblank : (Text.trim source.toList).isEmpty = false)
      (herrors : Script.compile source = .error errors) :
      Ends { outcome := .rejected errors, state, canvas, signal, warnings }
  | stopped {signal : Signal} {warnings : List String} {script : Script}
      (hblank : (Text.trim source.toList).isEmpty = false)
      (hscript : Script.compile source = .ok script)
      (hstopped : (generated ctx state canvas script).progress = .interrupted) :
      Ends {
        outcome := .generationStopped
        state
        itemCount := (generated ctx state canvas script).items.length
        errors := (generated ctx state canvas script).errors
        canvas
        signal
        warnings }
  | rendered {warnings : List String} {script : Script}
      (hblank : (Text.trim source.toList).isEmpty = false)
      (hscript : Script.compile source = .ok script)
      (hcomplete : (generated ctx state canvas script).progress = .complete) :
      Ends (render ctx options (generated ctx state canvas script) canvas warnings)

variable {ctx options source state canvas}

theorem ends_generate {signal : Signal} {script : Script} (hdown : signal.raised = false)
    (hblank : (Text.trim source.toList).isEmpty = false)
    (hscript : Script.compile source = .ok script) (warnings : List String) :
    Ends ctx options source state canvas
      (generate ctx options script state canvas signal warnings) := by
  have hprogress : (generated ctx state canvas script).progress =
      if (generated ctx state canvas script).last.completed then .complete else .interrupted :=
    rfl
  have hgenerate : generate ctx options script state canvas signal warnings =
      let s := generated ctx state canvas script
      if s.last.completed then render ctx options s canvas (warnings ++ s.last.remarks)
      else
        { outcome := .generationStopped
          state := s.host
          itemCount := s.items.length
          errors := s.errors
          canvas
          signal := s.last.signal
          warnings := warnings ++ s.last.remarks } := by
    rw [generate, hdown]
    rfl
  rw [hgenerate]
  dsimp only
  by_cases hcompleted : (generated ctx state canvas script).last.completed = true
  · rw [if_pos hcompleted] at hprogress ⊢
    exact .rendered hblank hscript hprogress
  · rw [if_neg hcompleted] at hprogress ⊢
    exact .stopped hblank hscript hprogress

theorem ends_run (before : Signal) :
    Ends ctx options source state canvas (run ctx options source state canvas before) := by
  rw [run]
  dsimp only
  cases hblank : (Text.trim source.toList).isEmpty with
  | true => exact .blank hblank
  | false =>
    simp only [Bool.false_eq_true, if_false]
    cases hresult : (Reading.ofSource source).result with
    | error errors => exact .rejected hblank hresult
    | ok script => exact ends_generate rfl hblank hresult _

namespace Ends

variable {r : JobResult} (h : Ends ctx options source state canvas r)
include h

theorem state_eq : r.state = state := by
  cases h <;> rfl

theorem success_iff : r.outcome.success = true ↔ (Text.trim source.toList).isEmpty = false ∧
    ∃ script, Script.compile source = .ok script ∧
      (generated ctx state canvas script).progress = .complete ∧
      (Rendering.run ctx options (generated ctx state canvas script).items canvas
        (generated ctx state canvas script).last.signal).completed = true := by
  cases h with
  | blank hblank => simp [JobOutcome.success, hblank]
  | rejected hblank herrors => simp [JobOutcome.success, herrors]
  | stopped hblank hscript hstopped => simp [JobOutcome.success, hscript, hstopped]
  | @rendered _ script hblank hscript hcomplete =>
    simp only [hblank, hscript, Except.ok.injEq, exists_eq_left', hcomplete, true_and]
    rw [render]
    dsimp only
    cases (Rendering.run ctx options (generated ctx state canvas script).items canvas
      (generated ctx state canvas script).last.signal).completed <;> simp [JobOutcome.success]

theorem untouched (hbefore : (Text.trim source.toList).isEmpty = true ∨
    (∃ errors, Script.compile source = .error errors) ∨
    ∃ script, Script.compile source = .ok script ∧
      (generated ctx state canvas script).progress = .interrupted) :
    r.canvas = canvas ∧ r.stats = {} := by
  cases h with
  | blank _ => exact ⟨rfl, rfl⟩
  | rejected _ _ => exact ⟨rfl, rfl⟩
  | stopped _ _ _ => exact ⟨rfl, rfl⟩
  | rendered hblank hscript hcomplete =>
    exfalso
    rcases hbefore with hempty | ⟨errors, herrors⟩ | ⟨script', hscript', hstopped⟩
    · rw [hblank] at hempty
      cases hempty
    · rw [hscript] at herrors
      cases herrors
    · rw [hscript, Except.ok.injEq] at hscript'
      subst hscript'
      rw [hcomplete] at hstopped
      cases hstopped

theorem counted (hsuccess : r.outcome.success = true) : r.stats.total = r.itemCount ∧
    r.itemCount = r.stats.rendered + r.stats.offScreen + r.stats.occluded := by
  obtain ⟨-, script, hscript, hcomplete, hcompleted⟩ := h.success_iff.1 hsuccess
  cases h with
  | blank _ => cases hsuccess
  | rejected _ _ => cases hsuccess
  | stopped _ _ _ => cases hsuccess
  | rendered _ hscript' _ =>
    rw [hscript, Except.ok.injEq] at hscript'
    subst hscript'
    have htotal : (Rendering.run ctx options (generated ctx state canvas script).items canvas
        (generated ctx state canvas script).last.signal).stats.total =
          (generated ctx state canvas script).items.length := Rendering.total_run
    exact ⟨htotal, htotal.symm.trans (Rendering.counts_run.2.2 hcompleted).symm⟩

end Ends

variable (ctx options source state canvas)

/-- What a job reports, however it is interrupted while it runs and whatever raised the signal
before. It ends well exactly when its source is neither blank nor faulty and neither the
generation nor the rendering is interrupted. -/
theorem outcome_of_run (before : Signal) :
    let r := run ctx options source state canvas before
    (r.outcome.success = true ↔ r.outcome.message = "") ∧
      (r.outcome.interrupted = true → r.outcome.success = false) ∧
      (r.outcome.success = true ↔ (Text.trim source.toList).isEmpty = false ∧
        ∃ script, Script.compile source = .ok script ∧
          (generated ctx state canvas script).progress = .complete ∧
          (Rendering.run ctx options (generated ctx state canvas script).items canvas
            (generated ctx state canvas script).last.signal).completed = true) ∧
      ((Text.trim source.toList).isEmpty = true ∨
          (∃ errors, Script.compile source = .error errors) ∨
          (∃ script, Script.compile source = .ok script ∧
            (generated ctx state canvas script).progress = .interrupted) →
        r.canvas = canvas ∧ r.stats = {}) ∧
      (r.outcome.success = true → r.stats.total = r.itemCount ∧
        r.itemCount = r.stats.rendered + r.stats.offScreen + r.stats.occluded) ∧
      r.state = state ∧
      ∀ raised, run ctx options source state canvas { before with raised } = r := by
  intro r
  have hends : Ends ctx options source state canvas r := ends_run before
  exact ⟨JobOutcome.message_eq_empty_iff.symm, JobOutcome.not_success_of_interrupted,
    hends.success_iff, hends.untouched, hends.counted, hends.state_eq, fun _ => rfl⟩

def faulty : String := "VAR $z = 10 / 0\nPIXEL X=0 Y=0\n"

theorem outcome_of_run_of_faulty :
    (run {} { block := 1 } faulty {} (.blank 1 1) {}).errors ≠ [] ∧
      (run {} { block := 1 } faulty {} (.blank 1 1) {}).outcome.message = "" ∧
      (run {} { block := 1 } faulty {} (.blank 1 1) {}).stats.total =
        (run {} { block := 1 } faulty {} (.blank 1 1) {}).itemCount ∧
      (run {} { block := 1 } faulty {} (.blank 1 1) { raised := true }).canvas =
        (run {} { block := 1 } faulty {} (.blank 1 1) {}).canvas := by
  have herrors : (run {} { block := 1 } faulty {} (.blank 1 1) {}).errors.length = 1 := by
    decide +kernel
  have hsuccess : (run {} { block := 1 } faulty {} (.blank 1 1) {}).outcome.success = true := by
    decide +kernel
  obtain ⟨hmessage, -, -, -, hcounted, -, hstale⟩ :=
    outcome_of_run {} { block := 1 } faulty {} (.blank 1 1) {}
  refine ⟨?_, hmessage.1 hsuccess, (hcounted hsuccess).1, congrArg JobResult.canvas (hstale true)⟩
  intro hnone
  rw [hnone] at herrors
  cases herrors

end Runs

end Job

end PatternScript
