import PatternScript.Raster.Rendering
import PatternScript.Run.Session
import PatternScript.Script.Reading

/-!
# Render jobs

One job reads a script, generates its display list and renders it. A signal raised
before the job is forgotten; one raised while it runs stops it at the next poll.
-/
namespace PatternScript

inductive JobOutcome
  | blank
  | rejected (errors : List ParseError)
  | generationStopped
  | renderingStopped
  | done
  deriving DecidableEq

namespace JobOutcome

def success : JobOutcome → Bool
  | done => true
  | blank | rejected _ | generationStopped | renderingStopped => false

def interrupted : JobOutcome → Bool
  | generationStopped | renderingStopped => true
  | blank | rejected _ | done => false

def message : JobOutcome → String
  | blank => "Render job had empty script content."
  | rejected errors => "\n".intercalate ("Parse failed:" :: errors.map ParseError.text)
  | generationStopped => "Display list generation interrupted."
  | renderingStopped => "Rendering process interrupted."
  | done => ""

def warnings : JobOutcome → List String
  | blank => ["render job had empty script content"]
  | rejected errors => [s!"parse failed with {errors.length} error(s)"]
  | generationStopped | renderingStopped | done => []

end JobOutcome

structure JobResult where
  outcome : JobOutcome
  state : HostState
  stats : RenderCounts := {}
  itemCount : Nat := 0
  errors : List RuntimeError := []
  canvas : Canvas
  signal : Signal
  warnings : List String := []

namespace Job

def render (ctx : RenderContext) (options : RenderSettings) (s : Session) (canvas : Canvas)
    (warnings : List String) : JobResult :=
  let r := Rendering.run ctx options s.items canvas s.last.signal
  { outcome := if r.completed then .done else .renderingStopped
    state := s.host
    stats := r.stats
    itemCount := s.items.length
    errors := s.errors
    canvas := r.canvas
    signal := r.signal
    warnings }

def generate (ctx : RenderContext) (options : RenderSettings) (script : Script)
    (state : HostState) (canvas : Canvas) (signal : Signal) (warnings : List String) : JobResult :=
  let start : Session :=
    { script
      width := canvas.width
      height := canvas.height
      host := state
      interrupted := signal.raised }
  let s := start.generate ctx.host.atPoll
  let warnings := warnings ++ s.last.remarks
  if s.last.completed then render ctx options s canvas warnings
  else
    { outcome := .generationStopped
      state := s.host
      itemCount := s.items.length
      errors := s.errors
      canvas
      signal := s.last.signal
      warnings }

def run (ctx : RenderContext) (options : RenderSettings) (source : String) (state : HostState)
    (canvas : Canvas) (before : Signal) : JobResult :=
  let signal := before.lowered
  let refused (outcome : JobOutcome) (warnings : List String) : JobResult :=
    { outcome, state, canvas, signal, warnings := warnings ++ outcome.warnings }
  if (Text.trim source.toList).isEmpty then refused .blank []
  else
    let reading := Reading.ofSource source
    match reading.result with
    | .error errors => refused (.rejected errors) reading.remarks
    | .ok script => generate ctx options script state canvas signal reading.remarks

end Job

end PatternScript
