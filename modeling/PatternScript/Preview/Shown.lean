import PatternScript.Preview.Config
import PatternScript.Run.Session
import PatternScript.Script.Builtin
import PatternScript.Script.Reading

/-!
# What the preview shows

One run of a source: its faults, and the display list and the picture of what was run.
When the source cannot be read, the built-in script may run in its place.
-/
namespace PatternScript

structure Shown where
  parseErrors : List ParseError := []
  runtimeErrors : List RuntimeError := []
  usedBuiltin : Bool := false
  script : Option Script := none
  items : List Item := []
  stats : RenderCounts := {}
  canvas : Canvas
  remarks : List String := []

namespace Shown

def builtinRemark (faults : Nat) : String :=
  s!"script failed to parse ({faults} errors), running the built-in script"

def nothing (config : Config) : Shown := { canvas := .blank config.width config.height }

def ofScript (script : Script) (state : HostState) (config : Config) : Shown :=
  let start : Session :=
    { script, width := config.width, height := config.height, host := state }
  let s := start.generate
  let r := Rendering.run {} { block := config.block } s.items
    (.blank config.width config.height) {}
  { runtimeErrors := s.errors
    script := some script
    items := s.items
    stats := r.stats
    canvas := r.canvas
    remarks := s.last.remarks }

def ofReading (reading : Reading) (state : HostState) (config : Config) : Shown :=
  match reading.result with
  | .ok script => ofScript script state config
  | .error errors => { nothing config with parseErrors := errors }

/-- Runs a source, or else the built-in script when `fallback` allows it. -/
def ofSource (source : String) (state : HostState) (config : Config) (fallback : Bool) : Shown :=
  let reading := Reading.ofSource source
  let own := ofReading reading state config
  if own.parseErrors.isEmpty || !fallback then { own with remarks := reading.remarks ++ own.remarks }
  else
    let builtin := ofReading (.ofSource Script.builtinSource) state config
    { builtin with
      parseErrors := own.parseErrors
      usedBuiltin := true
      remarks := reading.remarks ++ [builtinRemark own.parseErrors.length] ++ builtin.remarks }

def ran (s : Shown) : Bool := s.script.isSome

def shade : Color → List UInt8
  | .black => [20, 20, 20, 255]
  | .white => [235, 235, 225, 255]

def image (s : Shown) : List (List UInt8) := s.canvas.pixels.toList.map shade

end Shown

end PatternScript
